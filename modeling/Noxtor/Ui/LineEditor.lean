import Noxtor.Lib.Utf8

/-!
# The input line of the full-screen interface

`tui_handle_input` edits a byte buffer with a byte cursor.  The editor it is meant to be holds the
characters in front of the cursor and those behind it; `Shows` relates the two.  Inserting and both
kinds of deleting go by whole characters, but ← and → move the cursor by one byte.
-/

namespace Noxtor
namespace Ui

open ByteString
open Utf8

/-- `utf8_encode`. -/
def utf8Encode (cp : Nat) : Bytes :=
  if cp < 0x80 then [UInt8.ofNat cp]
  else if cp < 0x800 then
    [UInt8.ofNat (0xC0 ||| cp >>> 6), UInt8.ofNat (0x80 ||| (cp &&& 0x3F))]
  else if cp < 0x10000 then
    [UInt8.ofNat (0xE0 ||| cp >>> 12), UInt8.ofNat (0x80 ||| (cp >>> 6 &&& 0x3F)),
      UInt8.ofNat (0x80 ||| (cp &&& 0x3F))]
  else
    [UInt8.ofNat (0xF0 ||| cp >>> 18), UInt8.ofNat (0x80 ||| (cp >>> 12 &&& 0x3F)),
      UInt8.ofNat (0x80 ||| (cp >>> 6 &&& 0x3F)), UInt8.ofNat (0x80 ||| (cp &&& 0x3F))]

/-- `utf8_char_bytes`. -/
def utf8CharBytes (buf : Bytes) (pos len : Nat) : Nat :=
  if pos ≥ len then 0
  else if pos + width (buf.getD pos 0) > len then 1
  else width (buf.getD pos 0)

/-- The loop of `utf8_prev_char_bytes`. -/
def prevStart (buf : Bytes) : Nat → Nat
  | 0 => 0
  | i + 1 => if continuation (buf.getD (i + 1) 0) then prevStart buf i else i + 1

/-- `utf8_prev_char_bytes`. -/
def utf8PrevCharBytes (buf : Bytes) (pos : Nat) : Nat :=
  if pos = 0 then 0 else pos - prevStart buf (pos - 1)

/-- `memmove(&buf[dst], &buf[src], n)`. -/
def memmove (buf : Bytes) (dst src n : Nat) : Bytes :=
  buf.take dst ++ (buf.drop src).take n ++ buf.drop (dst + n)

/-- `memcpy(&buf[dst], bytes, n)`, also for a single byte. -/
def poke (buf : Bytes) (dst : Nat) (bytes : Bytes) : Bytes :=
  buf.take dst ++ bytes ++ buf.drop (dst + bytes.length)

inductive Focus where
  | input
  | sidebar
deriving DecidableEq, Repr

/-- `struct tui_contact`; the address is a C string of ASCII characters. -/
structure TuiContact where
  onion : Bytes
  ascii : ∀ c ∈ onion, c < 0x80 ∧ c ≠ 0
deriving DecidableEq

/-- The fields of `struct tui_state` that `tui_handle_input` works on, and `g_shutdown`. -/
structure Tui where
  inputBuf : Bytes := List.replicate 4096 0
  inputLen : Nat := 0
  inputCursor : Nat := 0
  focus : Focus := .input
  contacts : List TuiContact := []
  selectedIdx : Nat := 0
  rows : Int := 0
  chatLineCount : Nat := 0
  chatScrollOffset : Int := 0
  shutdown : Bool := false
deriving DecidableEq

def tuiInputHeight : Int := 3

/-- "/connect ". -/
def connectText : Bytes :=
  [0x2f, 0x63, 0x6f, 0x6e, 0x6e, 0x65, 0x63, 0x74, 0x20]

section Handler

variable (t : Tui)

/-- How far `tui_draw_chat` can scroll: the lines that the box, of at least 5 rows, has no room
for. -/
def maxScroll : Int :=
  max (t.chatLineCount - (max (t.rows - tuiInputHeight) 5 - 2)) 0

/-- `tui_draw_chat`, which keeps the offset within the lines. -/
def tuiDrawChat : Tui :=
  { t with chatScrollOffset := max (min t.chatScrollOffset (maxScroll t)) 0 }

def scrollUp (n : Int) : Tui :=
  tuiDrawChat { t with chatScrollOffset := t.chatScrollOffset + n }

def scrollDown (n : Int) : Tui :=
  tuiDrawChat { t with chatScrollOffset := max (t.chatScrollOffset - n) 0 }

def toggleFocus : Tui :=
  { t with focus := if t.focus = .input then .sidebar else .input }

def handleUp : Tui :=
  if t.focus = .sidebar then
    { t with selectedIdx := if t.selectedIdx > 0 then t.selectedIdx - 1 else t.contacts.length }
  else scrollUp t 1

def handleDown : Tui :=
  if t.focus = .sidebar then
    { t with selectedIdx := if t.selectedIdx < t.contacts.length then t.selectedIdx + 1 else 0 }
  else scrollDown t 1

def handleLeft : Tui :=
  if t.focus = .input then
    if t.inputCursor > 0 then { t with inputCursor := t.inputCursor - 1 }
    else { t with focus := .sidebar }
  else t

def handleRight : Tui :=
  if t.focus = .input then
    if t.inputCursor < t.inputLen then { t with inputCursor := t.inputCursor + 1 } else t
  else { t with focus := .input }

/-- Enter; the line that is returned is read up to its NUL. -/
def handleEnter : Option Bytes × Tui :=
  if t.focus = .sidebar then
    match t.contacts[t.selectedIdx]? with
    | some contact =>
        let buf := poke t.inputBuf 0 (connectText ++ contact.onion ++ [0])
        (some (buf.takeWhile (· ≠ 0)),
          { t with inputBuf := buf, inputLen := 0, inputCursor := 0, focus := .input,
                   chatLineCount := 0, chatScrollOffset := 0 })
    | none =>
        let buf := poke t.inputBuf 0 (connectText ++ [0])
        (none, { t with inputBuf := buf, inputLen := connectText.length,
                        inputCursor := connectText.length, focus := .input })
  else if t.inputLen = 0 then (none, t)
  else
    let buf := poke t.inputBuf t.inputLen [0]
    (some (buf.takeWhile (· ≠ 0)),
      { t with inputBuf := buf, inputLen := 0, inputCursor := 0, chatScrollOffset := 0 })

def handleBackspace : Tui :=
  if t.focus = .input ∧ t.inputCursor > 0 ∧ t.inputLen > 0 then
    let del := utf8PrevCharBytes t.inputBuf t.inputCursor
    let buf := memmove t.inputBuf (t.inputCursor - del) t.inputCursor (t.inputLen - t.inputCursor)
    { t with inputBuf := poke buf (t.inputLen - del) [0], inputLen := t.inputLen - del,
             inputCursor := t.inputCursor - del }
  else t

def handleDelete : Tui :=
  if t.focus = .input ∧ t.inputCursor < t.inputLen then
    let del := utf8CharBytes t.inputBuf t.inputCursor t.inputLen
    let buf := memmove t.inputBuf t.inputCursor (t.inputCursor + del)
      (t.inputLen - t.inputCursor - del)
    { t with inputBuf := poke buf (t.inputLen - del) [0], inputLen := t.inputLen - del }
  else t

/-- The default branch: a character is inserted if it fits. -/
def handleCharacter (ch : Nat) : Tui :=
  if t.focus = .input ∧ ((32 ≤ ch ∧ ch < 127) ∨ (127 < ch ∧ ch < 0x110000)) then
    let utf8 := utf8Encode ch
    if t.inputLen + utf8.length ≤ 4095 then
      let buf := memmove t.inputBuf (t.inputCursor + utf8.length) t.inputCursor
        (t.inputLen - t.inputCursor)
      { t with inputBuf := poke buf t.inputCursor utf8, inputLen := t.inputLen + utf8.length,
               inputCursor := t.inputCursor + utf8.length }
    else t
  else t

def tuiHandleInput (ch : Nat) : Option Bytes × Tui :=
  if ch = 0x03 ∨ ch = 0x10 then (none, { t with shutdown := true })
  else if ch = 0x09 ∨ ch = 0xffff - 22 then (none, toggleFocus t)
  else if ch = 0xffff - 16 then (none, scrollUp t 10)
  else if ch = 0xffff - 17 then (none, scrollDown t 10)
  else if ch = 0xffff - 18 then (none, handleUp t)
  else if ch = 0xffff - 19 then (none, handleDown t)
  else if ch = 0xffff - 20 then (none, handleLeft t)
  else if ch = 0xffff - 21 then (none, handleRight t)
  else if ch = 0x0a ∨ ch = 0x0d then handleEnter t
  else if ch = 0x08 ∨ ch = 127 then (none, handleBackspace t)
  else if ch = 0xffff - 13 then (none, handleDelete t)
  else if ch = 0xffff - 14 then
    (none, if t.focus = .input then { t with inputCursor := 0 } else t)
  else if ch = 0xffff - 15 then
    (none, if t.focus = .input then { t with inputCursor := t.inputLen } else t)
  else (none, handleCharacter t ch)

end Handler

/-- A key of the terminal.  A typed character is a printable Unicode scalar value. -/
inductive Key where
  | char (c : Char) (printable : 32 ≤ c.toNat ∧ c.toNat ≠ 127)
  | ctrlC
  | ctrlP
  | tab
  | backTab
  | pageUp
  | pageDown
  | up
  | down
  | left
  | right
  | lineFeed
  | enter
  | backspace
  | rubout
  | delete
  | home
  | toEnd
deriving DecidableEq

/-- The number that `process_stdin_events` passes on: `ev.ch` of a character, else `ev.key`. -/
def Key.code : Key → Nat
  | .char c _ => c.toNat
  | .ctrlC => 0x03
  | .ctrlP => 0x10
  | .tab => 0x09
  | .backTab => 0xffff - 22
  | .pageUp => 0xffff - 16
  | .pageDown => 0xffff - 17
  | .up => 0xffff - 18
  | .down => 0xffff - 19
  | .left => 0xffff - 20
  | .right => 0xffff - 21
  | .lineFeed => 0x0a
  | .enter => 0x0d
  | .backspace => 0x08
  | .rubout => 127
  | .delete => 0xffff - 13
  | .home => 0xffff - 14
  | .toEnd => 0xffff - 15

/-- A key, new contacts when the sidebar is drawn, or the chat panel drawn in another size or with
other lines. -/
inductive TuiEvent where
  | key (k : Key)
  | loadContacts (contacts : List TuiContact)
  | drawChat (rows : Int) (lineCount : Nat) (scrollOffset : Int)

/-- One event; after a line has been processed the buffer is wiped. -/
def tuiStep (t : Tui) : TuiEvent → Option Bytes × Tui
  | .key k =>
      match tuiHandleInput t k.code with
      | (some line, t) => (some line, { t with inputBuf := List.replicate 4096 0 })
      | (none, t) => (none, t)
  | .loadContacts contacts => (none, { t with contacts := contacts })
  | .drawChat rows lineCount scrollOffset =>
      (none, tuiDrawChat
        { t with rows := rows, chatLineCount := lineCount, chatScrollOffset := scrollOffset })

/-- The lines that a run returns and its last state. -/
def tuiRun (t : Tui) : List TuiEvent → List Bytes × Tui
  | [] => ([], t)
  | ev :: evs =>
      ((tuiStep t ev).1.toList ++ (tuiRun (tuiStep t ev).2 evs).1, (tuiRun (tuiStep t ev).2 evs).2)

/-- The chat panel is scrolled to lines that exist. -/
def ScrollFits (t : Tui) : Prop :=
  0 ≤ t.chatScrollOffset ∧ t.chatScrollOffset ≤ maxScroll t

section Scroll

variable {t : Tui}

theorem maxScroll_nonneg
    (t : Tui) :
    0 ≤ maxScroll t :=
  le_max_right _ _

theorem tuiDrawChat_fits
    (t : Tui) :
    ScrollFits (tuiDrawChat t) :=
  ⟨le_max_right _ _, max_le (min_le_right _ _) (maxScroll_nonneg t)⟩

theorem handleEnter_fits
    (h : ScrollFits t) :
    ScrollFits (handleEnter t).2 := by
  unfold handleEnter
  split
  · split
    · exact ⟨le_refl _, maxScroll_nonneg _⟩
    · exact h
  split
  · exact h
  · exact ⟨le_refl _, maxScroll_nonneg _⟩

theorem ScrollFits.ite
    {c : Prop} [Decidable c] {a b : Option Bytes × Tui} (ha : ScrollFits a.2)
    (hb : ScrollFits b.2) :
    ScrollFits (if c then a else b).2 := by
  split
  · exact ha
  · exact hb

/-- No key scrolls past the first or the last line. -/
theorem tuiHandleInput_fits
    (ch : Nat) (h : ScrollFits t) :
    ScrollFits (tuiHandleInput t ch).2 := by
  have hup : ScrollFits (handleUp t) := by
    unfold handleUp
    split
    · exact h
    · exact tuiDrawChat_fits _
  have hdown : ScrollFits (handleDown t) := by
    unfold handleDown
    split
    · exact h
    · exact tuiDrawChat_fits _
  have hleft : ScrollFits (handleLeft t) := by
    unfold handleLeft
    split_ifs <;> exact h
  have hright : ScrollFits (handleRight t) := by
    unfold handleRight
    split_ifs <;> exact h
  have hbackspace : ScrollFits (handleBackspace t) := by
    unfold handleBackspace
    split_ifs <;> exact h
  have hdelete : ScrollFits (handleDelete t) := by
    unfold handleDelete
    split_ifs <;> exact h
  have hcharacter : ScrollFits (handleCharacter t ch) := by
    unfold handleCharacter
    dsimp only
    split_ifs <;> exact h
  have hhome : ScrollFits (if t.focus = .input then { t with inputCursor := 0 } else t) := by
    split_ifs <;> exact h
  have hend :
      ScrollFits (if t.focus = .input then { t with inputCursor := t.inputLen } else t) := by
    split_ifs <;> exact h
  unfold tuiHandleInput
  exact .ite h <| .ite h <| .ite (tuiDrawChat_fits _) <| .ite (tuiDrawChat_fits _) <|
    .ite hup <| .ite hdown <| .ite hleft <| .ite hright <| .ite (handleEnter_fits h) <|
    .ite hbackspace <| .ite hdelete <| .ite hhome <| .ite hend hcharacter

/-- Whatever is typed and drawn, the panel is scrolled to lines that exist. -/
theorem tuiRun_fits
    (evs : List TuiEvent) (h : ScrollFits t) :
    ScrollFits (tuiRun t evs).2 := by
  induction evs generalizing t with
  | nil =>
      exact h
  | cons ev evs ih =>
      refine ih ?_
      cases ev with
      | key k =>
          have hkey := tuiHandleInput_fits k.code h
          dsimp only [tuiStep]
          generalize tuiHandleInput t k.code = r at hkey ⊢
          obtain ⟨_ | line, t'⟩ := r
          · exact hkey
          · exact hkey
      | loadContacts contacts => exact h
      | drawChat rows lineCount scrollOffset => exact tuiDrawChat_fits _

end Scroll

/-- The characters in front of the cursor and behind it, and what the keys depend on besides. -/
structure Draft where
  before : List Char := []
  after : List Char := []
  focus : Focus := .input
  contacts : List TuiContact := []
  selectedIdx : Nat := 0

/-- The bytes of a text. -/
def encode (text : List Char) : Bytes :=
  text.flatMap fun c => utf8Encode c.toNat

namespace Draft

variable (d : Draft)

def size : Nat :=
  (encode d.before).length + (encode d.after).length

def insert (c : Char) : Draft :=
  if d.focus = .input ∧ d.size + (utf8Encode c.toNat).length ≤ 4095 then
    { d with before := d.before ++ [c] }
  else d

def moveLeft : Draft :=
  if d.focus = .input then
    match d.before.getLast? with
    | some c => { d with before := d.before.dropLast, after := c :: d.after }
    | none => { d with focus := .sidebar }
  else d

def moveRight : Draft :=
  if d.focus = .input then
    match d.after with
    | c :: rest => { d with before := d.before ++ [c], after := rest }
    | [] => d
  else { d with focus := .input }

def enter : Option Bytes × Draft :=
  if d.focus = .sidebar then
    match d.contacts[d.selectedIdx]? with
    | some contact =>
        (some (connectText ++ contact.onion), { d with before := [], after := [], focus := .input })
    | none => (none, { d with before := "/connect ".toList, after := [], focus := .input })
  else if d.before ++ d.after = [] then (none, d)
  else (some (encode (d.before ++ d.after)), { d with before := [], after := [] })

/-- What a key means. -/
def press : Key → Option Bytes × Draft
  | .char c _ => (none, d.insert c)
  | .tab => (none, { d with focus := if d.focus = .input then .sidebar else .input })
  | .backTab => (none, { d with focus := if d.focus = .input then .sidebar else .input })
  | .up =>
      (none, if d.focus = .sidebar then
        { d with selectedIdx := if d.selectedIdx > 0 then d.selectedIdx - 1 else d.contacts.length }
      else d)
  | .down =>
      (none, if d.focus = .sidebar then
        { d with selectedIdx := if d.selectedIdx < d.contacts.length then d.selectedIdx + 1 else 0 }
      else d)
  | .left => (none, d.moveLeft)
  | .right => (none, d.moveRight)
  | .lineFeed => d.enter
  | .enter => d.enter
  | .backspace => (none, if d.focus = .input then { d with before := d.before.dropLast } else d)
  | .rubout => (none, if d.focus = .input then { d with before := d.before.dropLast } else d)
  | .delete => (none, if d.focus = .input then { d with after := d.after.tail } else d)
  | .home =>
      (none, if d.focus = .input then { d with before := [], after := d.before ++ d.after } else d)
  | .toEnd =>
      (none, if d.focus = .input then { d with before := d.before ++ d.after, after := [] } else d)
  | .ctrlC => (none, d)
  | .ctrlP => (none, d)
  | .pageUp => (none, d)
  | .pageDown => (none, d)

def step : TuiEvent → Option Bytes × Draft
  | .key k => d.press k
  | .loadContacts contacts => (none, { d with contacts := contacts })
  | .drawChat _ _ _ => (none, d)

def run (d : Draft) : List TuiEvent → List Bytes × Draft
  | [] => ([], d)
  | ev :: evs => ((d.step ev).1.toList ++ (run (d.step ev).2 evs).1, (run (d.step ev).2 evs).2)

end Draft

section Encode

theorem low_bits
    (n : Nat) :
    n &&& 0x3F = n % 64 :=
  Nat.and_two_pow_sub_one_eq_mod n 6

theorem trailing_byte
    {x : Nat} (h : x < 64) :
    continuation (UInt8.ofNat (0x80 ||| x)) = true ∧
      (UInt8.ofNat (0x80 ||| x)).toNat = 0x80 + x := by
  have hall : ∀ x < 64, continuation (UInt8.ofNat (0x80 ||| x)) = true ∧
      (UInt8.ofNat (0x80 ||| x)).toNat = 0x80 + x := by
    decide +kernel
  exact hall x h

/-- The leading bytes of characters of two, three and four bytes. -/
theorem leading_byte :
    (∀ x < 32, (UInt8.ofNat (0xC0 ||| x)).toNat = 0xC0 + x) ∧
      (∀ x < 16, (UInt8.ofNat (0xE0 ||| x)).toNat = 0xE0 + x) ∧
      ∀ x < 8, (UInt8.ofNat (0xF0 ||| x)).toNat = 0xF0 + x := by
  decide +kernel

theorem byte_eq_iff
    {a b : UInt8} :
    a = b ↔ a.toNat = b.toNat :=
  UInt8.toNat_inj.symm

/-- Scalar values are encoded as code points. -/
theorem codePoint_of_scalar
    {n : Nat} (h : n < 0xD800 ∨ (0xDFFF < n ∧ n < 0x110000)) :
    codePoint (utf8Encode n) = true := by
  obtain ⟨htwo, hthree, hfour⟩ := leading_byte
  have hmod : ∀ m : Nat, m % 64 < 64 := fun m => Nat.mod_lt m (by decide)
  unfold utf8Encode
  simp only [low_bits, Nat.shiftRight_eq_div_pow, Nat.reducePow]
  obtain ⟨hc0, hv0⟩ := trailing_byte (hmod n)
  obtain ⟨hc1, hv1⟩ := trailing_byte (hmod (n / 64))
  obtain ⟨hc2, hv2⟩ := trailing_byte (hmod (n / 4096))
  by_cases h1 : n < 0x80
  · rw [if_pos h1]
    simp only [codePoint, decide_eq_true_eq, UInt8.lt_iff_toNat_lt]
    simp only [UInt8.toNat_ofNat']
    exact Nat.lt_of_le_of_lt (Nat.mod_le _ _) h1
  · rw [if_neg h1]
    by_cases h2 : n < 0x800
    · have hlead := htwo (n / 64) (by omega)
      rw [if_pos h2]
      simp only [codePoint, decide_eq_true_eq, UInt8.le_iff_toNat_le, hlead]
      exact ⟨by show 0xC2 ≤ _; omega, by show _ ≤ 0xDF; omega, hc0⟩
    · rw [if_neg h2]
      by_cases h3 : n < 0x10000
      · have hlead := hthree (n / 4096) (by omega)
        rw [if_pos h3]
        simp only [codePoint, decide_eq_true_eq, UInt8.le_iff_toNat_le, UInt8.lt_iff_toNat_lt,
          byte_eq_iff, hlead, hv1]
        refine ⟨by show 0xE0 ≤ _; omega, by show _ ≤ 0xEF; omega, hc1, hc0, fun hlo => ?_,
          fun hhi => ?_⟩
        · have hlo' : 0xE0 + n / 4096 = 0xE0 := hlo
          show 0xA0 ≤ _
          omega
        · have hhi' : 0xE0 + n / 4096 = 0xED := hhi
          show _ < 0xA0
          omega
      · have hlead := hfour (n / 262144) (by omega)
        rw [if_neg h3]
        simp only [codePoint, decide_eq_true_eq, UInt8.le_iff_toNat_le, UInt8.lt_iff_toNat_lt,
          byte_eq_iff, hlead, hv2]
        refine ⟨by show 0xF0 ≤ _; omega, by show _ ≤ 0xF4; omega, hc2, hc1, hc0, fun hlo => ?_,
          fun hhi => ?_⟩
        · have hlo' : 0xF0 + n / 262144 = 0xF0 := hlo
          show 0x90 ≤ _
          omega
        · have hhi' : 0xF0 + n / 262144 = 0xF4 := hhi
          show _ < 0x90
          omega

theorem codePoint_utf8Encode
    (c : Char) :
    codePoint (utf8Encode c.toNat) = true :=
  codePoint_of_scalar c.valid

theorem encode_valid
    (text : List Char) :
    Valid (encode text) := by
  induction text with
  | nil =>
      exact valid_nil
  | cons c text ih =>
      exact ih.cons (codePoint_utf8Encode c)

theorem encode_append
    (a b : List Char) :
    encode (a ++ b) = encode a ++ encode b :=
  List.flatMap_append

theorem encode_cons
    (c : Char) (text : List Char) :
    encode (c :: text) = utf8Encode c.toNat ++ encode text :=
  rfl

theorem encode_singleton
    (c : Char) :
    encode [c] = utf8Encode c.toNat := by
  rw [encode_cons]
  exact List.append_nil _

theorem utf8Encode_ne_nil
    (c : Char) :
    utf8Encode c.toNat ≠ [] := by
  intro h
  have hc := codePoint_utf8Encode c
  rw [h] at hc
  cases hc

theorem encode_eq_nil_iff
    (text : List Char) :
    encode text = [] ↔ text = [] := by
  cases text with
  | nil =>
      simp [encode]
  | cons c text =>
      simp [encode_cons, utf8Encode_ne_nil c]

/-- A character with an ASCII byte has no other. -/
theorem length_eq_one_of_ascii
    {u : Bytes} (hu : codePoint u = true) {i : Nat} (hi : i < u.length)
    (hascii : u.getD i 0 < 0x80) :
    u.length = 1 := by
  obtain ⟨a, rfl, -⟩ | ⟨lead, next, rest, rfl, -, hhigh⟩ := codePoint_ascii_or_high hu
  · rfl
  · rw [List.getD_eq_getElem _ _ hi] at hascii
    exact absurd (hhigh _ (List.getElem_mem hi)) (UInt8.not_le.mpr hascii)

theorem utf8Encode_no_nul
    {c : Char} (h : 32 ≤ c.toNat) :
    0 ∉ utf8Encode c.toNat := by
  intro hmem
  by_cases hascii : c.toNat < 0x80
  · rw [utf8Encode, if_pos hascii, List.mem_singleton] at hmem
    have hval := congrArg UInt8.toNat hmem
    rw [UInt8.toNat_ofNat', Nat.mod_eq_of_lt (Nat.lt_trans hascii (by decide))] at hval
    have hzero : c.toNat = 0 := hval.symm
    omega
  · obtain ⟨a, heq, -⟩ | ⟨lead, next, rest, -, -, hhigh⟩ :=
      codePoint_ascii_or_high (codePoint_utf8Encode c)
    · have hlen := congrArg List.length heq
      rw [utf8Encode, if_neg hascii] at hlen
      split_ifs at hlen <;> simp at hlen
    · exact absurd (hhigh 0 hmem) (by decide)

theorem encode_no_nul
    {text : List Char} (h : ∀ c ∈ text, 32 ≤ c.toNat) :
    0 ∉ encode text := by
  intro hmem
  obtain ⟨c, hc, hzero⟩ := List.mem_flatMap.mp hmem
  exact utf8Encode_no_nul (h c hc) hzero

end Encode

section Buffer

variable (a b u rest : Bytes)

theorem poke_append :
    poke (a ++ rest) a.length u = a ++ (u ++ rest.drop u.length) := by
  unfold poke
  rw [List.take_left, List.drop_length_add_append, List.append_assoc]

theorem poke_zero :
    poke rest 0 u = u ++ rest.drop u.length := by
  unfold poke
  rw [List.take_zero, List.nil_append, Nat.zero_add]

/-- Making room at the cursor and copying a character there. -/
theorem insert_bytes
    (hroom : u.length ≤ rest.length) :
    poke (memmove (a ++ (b ++ rest)) (a.length + u.length) a.length b.length) a.length u =
      a ++ (u ++ (b ++ rest.drop u.length)) := by
  have hmove : memmove (a ++ (b ++ rest)) (a.length + u.length) a.length b.length =
      a ++ ((b ++ rest).take u.length ++ (b ++ rest.drop u.length)) := by
    unfold memmove
    rw [List.take_length_add_append, List.drop_left, List.take_left, Nat.add_assoc,
      List.drop_length_add_append, Nat.add_comm u.length, List.drop_length_add_append,
      List.append_assoc, List.append_assoc]
  have hlen : ((b ++ rest).take u.length).length = u.length := by
    rw [List.length_take_of_le]
    rw [List.length_append]
    omega
  rw [hmove, poke_append, List.drop_left' hlen]

/-- Closing the gap of a removed character and ending the text there. -/
theorem remove_bytes
    (hu : u ≠ []) :
    ∃ rest', poke (memmove (a ++ (u ++ (b ++ rest))) a.length (a.length + u.length) b.length)
        (a.length + b.length) [0] = a ++ (b ++ rest') ∧
      (a ++ (b ++ rest')).length = (a ++ (u ++ (b ++ rest))).length := by
  have hmove : memmove (a ++ (u ++ (b ++ rest))) a.length (a.length + u.length) b.length =
      (a ++ b) ++ (u ++ (b ++ rest)).drop b.length := by
    unfold memmove
    rw [List.take_left, List.drop_length_add_append, List.drop_left, List.take_left,
      List.drop_length_add_append]
  have hpos : 0 < u.length := List.length_pos_iff.mpr hu
  have hlen : 1 ≤ ((u ++ (b ++ rest)).drop b.length).length := by
    rw [List.length_drop, List.length_append, List.length_append]
    omega
  refine ⟨[0] ++ ((u ++ (b ++ rest)).drop b.length).drop 1, ?_, ?_⟩
  · rw [hmove, ← List.length_append, poke_append, List.append_assoc]
    rfl
  · simp only [List.length_append, List.length_drop, List.length_singleton] at hlen ⊢
    omega

/-- The loop back to the leading byte. -/
theorem prevStart_append
    (lead : UInt8) (conts : Bytes) (hlead : continuation lead = false)
    (hconts : ∀ c ∈ conts, continuation c = true) (n : Nat) (hn : n ≤ conts.length) :
    prevStart (a ++ (lead :: conts ++ rest)) (a.length + n) = a.length := by
  induction n with
  | zero =>
      cases ha : a.length with
      | zero =>
          rfl
      | succ k =>
          have hget : (a ++ (lead :: conts ++ rest)).getD (k + 1) 0 = lead := by
            rw [List.getD_append_right _ _ _ _ (by omega), ← ha, Nat.sub_self]
            rfl
          rw [Nat.add_zero, prevStart, hget, hlead]
          rfl
  | succ n ih =>
      have hlt : n < conts.length := hn
      have hget : (a ++ (lead :: conts ++ rest)).getD (a.length + n + 1) 0 = conts.getD n 0 := by
        rw [List.getD_append_right _ _ _ _ (by omega),
          show a.length + n + 1 - a.length = n + 1 by omega, List.cons_append, List.getD_cons_succ,
          List.getD_append _ _ _ _ hlt]
      have hcont : continuation (conts.getD n 0) = true := by
        rw [List.getD_eq_getElem _ _ hlt]
        exact hconts _ (List.getElem_mem hlt)
      rw [← Nat.add_assoc, prevStart, hget, hcont, if_pos rfl]
      exact ih (Nat.le_of_lt hlt)

theorem utf8PrevCharBytes_append
    (hu : codePoint u = true) :
    utf8PrevCharBytes (a ++ (u ++ rest)) (a.length + u.length) = u.length := by
  obtain ⟨lead, conts, rfl, hlead, -, hconts⟩ := codePoint_cases hu
  unfold utf8PrevCharBytes
  rw [if_neg (by simp), List.length_cons, ← Nat.add_assoc, Nat.add_sub_cancel,
    prevStart_append a rest lead conts hlead hconts conts.length (Nat.le_refl _)]
  omega

theorem utf8CharBytes_append
    (hu : codePoint u = true) (len : Nat) (hlen : a.length + u.length ≤ len) :
    utf8CharBytes (a ++ (u ++ rest)) a.length len = u.length := by
  obtain ⟨lead, conts, rfl, -⟩ := codePoint_cases hu
  have hwidth := codePoint_length hu
  have hget : (a ++ (lead :: conts ++ rest)).getD a.length 0 = lead := by
    rw [List.getD_append_right _ _ _ _ (Nat.le_refl _), Nat.sub_self]
    rfl
  rw [List.length_cons] at hlen
  unfold utf8CharBytes
  rw [if_neg (by omega), hget, ← hwidth, if_neg (by simp only [List.length_cons]; omega)]

end Buffer

section Refinement

/-- The buffer, the length and the cursor are those of the draft. -/
structure Shows (t : Tui) (d : Draft) : Prop where
  text : ∃ rest, t.inputBuf = encode d.before ++ (encode d.after ++ rest)
  capacity : t.inputBuf.length = 4096
  cursor : t.inputCursor = (encode d.before).length
  length : t.inputLen = (encode d.before).length + (encode d.after).length
  room : t.inputLen ≤ 4095
  printable : ∀ c ∈ d.before ++ d.after, 32 ≤ c.toNat
  focus : t.focus = d.focus
  contacts : t.contacts = d.contacts
  selectedIdx : t.selectedIdx = d.selectedIdx

variable {t : Tui} {d : Draft}

theorem Shows.insert
    (h : Shows t d) (c : Char) (hc : 32 ≤ c.toNat ∧ c.toNat ≠ 127) :
    Shows (handleCharacter t c.toNat) (d.insert c) := by
  have hscalar : c.toNat < 0x110000 := by
    obtain hlo | hhi := c.valid
    · exact Nat.lt_trans hlo (by decide)
    · exact hhi.2
  have hshown : (32 ≤ c.toNat ∧ c.toNat < 127) ∨ (127 < c.toNat ∧ c.toNat < 0x110000) := by
    omega
  obtain ⟨rest, htext⟩ := h.text
  unfold handleCharacter Draft.insert Draft.size
  by_cases hfocus : t.focus = .input
  · have hfocus' : d.focus = .input := h.focus ▸ hfocus
    rw [if_pos ⟨hfocus, hshown⟩, ← h.length]
    dsimp only
    by_cases hfits : t.inputLen + (utf8Encode c.toNat).length ≤ 4095
    · rw [if_pos hfits, if_pos ⟨hfocus', hfits⟩]
      have hbefore : encode (d.before ++ [c]) = encode d.before ++ utf8Encode c.toNat := by
        rw [encode_append, encode_singleton]
      have hcap := h.capacity
      rw [htext] at hcap
      simp only [List.length_append] at hcap
      have hlen := h.length
      have hroom : (utf8Encode c.toNat).length ≤ rest.length := by omega
      have hbuf : poke (memmove t.inputBuf (t.inputCursor + (utf8Encode c.toNat).length)
          t.inputCursor (t.inputLen - t.inputCursor)) t.inputCursor (utf8Encode c.toNat) =
          encode d.before ++ (utf8Encode c.toNat ++
            (encode d.after ++ rest.drop (utf8Encode c.toNat).length)) := by
        rw [htext, h.cursor, h.length, Nat.add_sub_cancel_left]
        exact insert_bytes _ _ _ _ hroom
      refine ⟨⟨rest.drop (utf8Encode c.toNat).length, ?_⟩, ?_, ?_, ?_, hfits, ?_, h.focus,
        h.contacts, h.selectedIdx⟩
      · dsimp only
        rw [hbuf, hbefore, List.append_assoc]
      · dsimp only
        rw [hbuf]
        simp only [List.length_append, List.length_drop]
        omega
      · dsimp only
        rw [hbefore, List.length_append, h.cursor]
      · dsimp only
        rw [hbefore, List.length_append, h.length]
        omega
      · intro x hx
        simp only [List.append_assoc, List.mem_append, List.mem_singleton] at hx
        obtain hx | rfl | hx := hx
        · exact h.printable x (List.mem_append_left _ hx)
        · exact hc.1
        · exact h.printable x (List.mem_append_right _ hx)
    · rw [if_neg hfits, if_neg (fun hand => hfits hand.2)]
      exact h
  · have hfocus' : ¬ d.focus = .input := h.focus ▸ hfocus
    rw [if_neg (fun hand => hfocus hand.1), if_neg (fun hand => hfocus' hand.1)]
    exact h

theorem Shows.backspace
    (h : Shows t d) :
    Shows (handleBackspace t)
      (if d.focus = .input then { d with before := d.before.dropLast } else d) := by
  obtain ⟨rest, htext⟩ := h.text
  unfold handleBackspace
  by_cases hfocus : t.focus = .input
  · have hfocus' : d.focus = .input := h.focus ▸ hfocus
    rw [if_pos hfocus']
    obtain hnil | ⟨before, c, hbefore⟩ := List.eq_nil_or_concat d.before
    · have hcursor : ¬ t.inputCursor > 0 := by
        rw [h.cursor, hnil]
        simp [encode]
      rw [if_neg (fun hand => hcursor hand.2.1)]
      have hsame : ({ d with before := d.before.dropLast } : Draft) = d := by
        rw [hnil, List.dropLast_nil, ← hnil]
      rw [hsame]
      exact h
    · rw [List.concat_eq_append] at hbefore
      have henc : encode d.before = encode before ++ utf8Encode c.toNat := by
        rw [hbefore, encode_append, encode_singleton]
      have hne := utf8Encode_ne_nil c
      have hpos : 0 < (utf8Encode c.toNat).length := List.length_pos_iff.mpr hne
      have hcursor : t.inputCursor = (encode before).length + (utf8Encode c.toNat).length := by
        rw [h.cursor, henc, List.length_append]
      have hlen : t.inputLen =
          (encode before).length + (utf8Encode c.toNat).length + (encode d.after).length := by
        rw [h.length, henc, List.length_append]
      have hmem : t.inputBuf =
          encode before ++ (utf8Encode c.toNat ++ (encode d.after ++ rest)) := by
        rw [htext, henc, List.append_assoc]
      have hdel : utf8PrevCharBytes t.inputBuf t.inputCursor = (utf8Encode c.toNat).length := by
        rw [hmem, hcursor]
        exact utf8PrevCharBytes_append _ _ _ (codePoint_utf8Encode c)
      obtain ⟨rest', hbuf, hsize⟩ := remove_bytes (encode before) (encode d.after)
        (utf8Encode c.toNat) rest hne
      have hcursor' : t.inputCursor - (utf8Encode c.toNat).length = (encode before).length := by
        omega
      have hlen' : t.inputLen - (utf8Encode c.toNat).length =
          (encode before).length + (encode d.after).length := by
        omega
      have htail : t.inputLen - t.inputCursor = (encode d.after).length := by
        omega
      have hdrop : d.before.dropLast = before := by
        rw [hbefore, List.dropLast_concat]
      rw [if_pos ⟨hfocus, by omega, by omega⟩]
      dsimp only
      rw [hdel, hcursor', hlen', htail, hdrop, hmem, hcursor, hbuf]
      refine ⟨⟨rest', rfl⟩, ?_, rfl, rfl, ?_, ?_, h.focus, h.contacts, h.selectedIdx⟩
      · dsimp only
        rw [hsize, ← hmem]
        exact h.capacity
      · dsimp only
        have hroom := h.room
        omega
      · intro x hx
        refine h.printable x ?_
        rw [hbefore, List.append_assoc]
        obtain hx | hx := List.mem_append.mp hx
        · exact List.mem_append_left _ hx
        · exact List.mem_append_right _ (List.mem_append_right _ hx)
  · have hfocus' : ¬ d.focus = .input := h.focus ▸ hfocus
    rw [if_neg hfocus', if_neg (fun hand => hfocus hand.1)]
    exact h

theorem Shows.delete
    (h : Shows t d) :
    Shows (handleDelete t) (if d.focus = .input then { d with after := d.after.tail } else d) := by
  obtain ⟨rest, htext⟩ := h.text
  unfold handleDelete
  by_cases hfocus : t.focus = .input
  · have hfocus' : d.focus = .input := h.focus ▸ hfocus
    rw [if_pos hfocus']
    cases hafter : d.after with
    | nil =>
        have hcursor : ¬ t.inputCursor < t.inputLen := by
          rw [h.cursor, h.length, hafter]
          simp [encode]
        rw [if_neg (fun hand => hcursor hand.2)]
        have hsame : ({ d with after := [].tail } : Draft) = d := by
          rw [List.tail_nil, ← hafter]
        rw [hsame]
        exact h
    | cons c after =>
        have henc : encode d.after = utf8Encode c.toNat ++ encode after := by
          rw [hafter, encode_cons]
        have hne := utf8Encode_ne_nil c
        have hpos : 0 < (utf8Encode c.toNat).length := List.length_pos_iff.mpr hne
        have hlen : t.inputLen =
            (encode d.before).length + (utf8Encode c.toNat).length + (encode after).length := by
          rw [h.length, henc, List.length_append, Nat.add_assoc]
        have hmem : t.inputBuf =
            encode d.before ++ (utf8Encode c.toNat ++ (encode after ++ rest)) := by
          rw [htext, henc, List.append_assoc]
        have hdel : utf8CharBytes t.inputBuf t.inputCursor t.inputLen =
            (utf8Encode c.toNat).length := by
          rw [hmem, h.cursor]
          exact utf8CharBytes_append _ _ _ (codePoint_utf8Encode c) _ (by omega)
        obtain ⟨rest', hbuf, hsize⟩ := remove_bytes (encode d.before) (encode after)
          (utf8Encode c.toNat) rest hne
        have hcursor := h.cursor
        have hlen' : t.inputLen - (utf8Encode c.toNat).length =
            (encode d.before).length + (encode after).length := by
          omega
        have htail : t.inputLen - t.inputCursor - (utf8Encode c.toNat).length =
            (encode after).length := by
          omega
        rw [if_pos ⟨hfocus, by omega⟩]
        dsimp only
        rw [hdel, hlen', htail, hmem, hcursor, hbuf, List.tail_cons]
        refine ⟨⟨rest', rfl⟩, ?_, rfl, rfl, ?_, ?_, h.focus, h.contacts, h.selectedIdx⟩
        · dsimp only
          rw [hsize, ← hmem]
          exact h.capacity
        · dsimp only
          have hroom := h.room
          omega
        · intro x hx
          refine h.printable x ?_
          rw [hafter]
          obtain hx | hx := List.mem_append.mp hx
          · exact List.mem_append_left _ hx
          · exact List.mem_append_right _ (List.mem_cons_of_mem _ hx)
  · have hfocus' : ¬ d.focus = .input := h.focus ▸ hfocus
    rw [if_neg hfocus', if_neg (fun hand => hfocus hand.1)]
    exact h

theorem Shows.left
    (h : Shows t d) (hsteady : t.focus = .input → 0 < t.inputCursor →
      t.inputBuf.getD (t.inputCursor - 1) 0 < 0x80) :
    Shows (handleLeft t) d.moveLeft := by
  obtain ⟨rest, htext⟩ := h.text
  unfold handleLeft Draft.moveLeft
  by_cases hfocus : t.focus = .input
  · have hfocus' : d.focus = .input := h.focus ▸ hfocus
    rw [if_pos hfocus, if_pos hfocus']
    obtain hnil | ⟨before, c, hbefore⟩ := List.eq_nil_or_concat d.before
    · have hcursor : ¬ t.inputCursor > 0 := by
        rw [h.cursor, hnil]
        simp [encode]
      have hlast : d.before.getLast? = none := by
        rw [hnil, List.getLast?_nil]
      rw [if_neg hcursor, hlast]
      exact ⟨⟨rest, htext⟩, h.capacity, h.cursor, h.length, h.room, h.printable, rfl, h.contacts,
        h.selectedIdx⟩
    · rw [List.concat_eq_append] at hbefore
      have henc : encode d.before = encode before ++ utf8Encode c.toNat := by
        rw [hbefore, encode_append, encode_singleton]
      have hpos : 0 < (utf8Encode c.toNat).length :=
        List.length_pos_iff.mpr (utf8Encode_ne_nil c)
      have hcursor : t.inputCursor = (encode before).length + (utf8Encode c.toNat).length := by
        rw [h.cursor, henc, List.length_append]
      have hmem : t.inputBuf =
          encode before ++ (utf8Encode c.toNat ++ (encode d.after ++ rest)) := by
        rw [htext, henc, List.append_assoc]
      have hone : (utf8Encode c.toNat).length = 1 := by
        have hbyte := hsteady hfocus (by omega)
        have hindex : t.inputCursor - 1 =
            (encode before).length + ((utf8Encode c.toNat).length - 1) := by
          omega
        rw [hmem, hindex, List.getD_append_right _ _ _ _ (by omega), Nat.add_sub_cancel_left,
          List.getD_append _ _ _ _ (by omega)] at hbyte
        exact length_eq_one_of_ascii (codePoint_utf8Encode c) (by omega) hbyte
      rw [if_pos (by omega), hbefore, List.getLast?_concat, List.dropLast_concat]
      refine ⟨⟨rest, ?_⟩, h.capacity, ?_, ?_, h.room, ?_, h.focus, h.contacts, h.selectedIdx⟩
      · dsimp only
        rw [hmem, encode_cons, List.append_assoc]
      · dsimp only
        omega
      · dsimp only
        rw [h.length, henc, encode_cons, List.length_append, List.length_append]
        omega
      · intro x hx
        refine h.printable x ?_
        rw [hbefore, List.append_assoc]
        exact hx
  · have hfocus' : ¬ d.focus = .input := h.focus ▸ hfocus
    rw [if_neg hfocus, if_neg hfocus']
    exact h

theorem Shows.right
    (h : Shows t d) (hsteady : t.focus = .input → t.inputCursor < t.inputLen →
      t.inputBuf.getD t.inputCursor 0 < 0x80) :
    Shows (handleRight t) d.moveRight := by
  obtain ⟨rest, htext⟩ := h.text
  unfold handleRight Draft.moveRight
  by_cases hfocus : t.focus = .input
  · have hfocus' : d.focus = .input := h.focus ▸ hfocus
    rw [if_pos hfocus, if_pos hfocus']
    cases hafter : d.after with
    | nil =>
        have hcursor : ¬ t.inputCursor < t.inputLen := by
          rw [h.cursor, h.length, hafter]
          simp [encode]
        rw [if_neg hcursor]
        exact h
    | cons c after =>
        have henc : encode d.after = utf8Encode c.toNat ++ encode after := by
          rw [hafter, encode_cons]
        have hpos : 0 < (utf8Encode c.toNat).length :=
          List.length_pos_iff.mpr (utf8Encode_ne_nil c)
        have hlen : t.inputLen =
            (encode d.before).length + (utf8Encode c.toNat).length + (encode after).length := by
          rw [h.length, henc, List.length_append, Nat.add_assoc]
        have hcursor := h.cursor
        have hlt : t.inputCursor < t.inputLen := by omega
        have hmem : t.inputBuf =
            encode d.before ++ (utf8Encode c.toNat ++ (encode after ++ rest)) := by
          rw [htext, henc, List.append_assoc]
        have hone : (utf8Encode c.toNat).length = 1 := by
          have hbyte := hsteady hfocus hlt
          rw [hmem, hcursor, List.getD_append_right _ _ _ _ (Nat.le_refl _), Nat.sub_self,
            List.getD_append _ _ _ _ hpos] at hbyte
          exact length_eq_one_of_ascii (codePoint_utf8Encode c) hpos hbyte
        rw [if_pos hlt]
        have hbefore : encode (d.before ++ [c]) = encode d.before ++ utf8Encode c.toNat := by
          rw [encode_append, encode_singleton]
        refine ⟨⟨rest, ?_⟩, h.capacity, ?_, ?_, h.room, ?_, h.focus, h.contacts, h.selectedIdx⟩
        · dsimp only
          rw [hmem, hbefore, List.append_assoc]
        · dsimp only
          rw [hbefore, List.length_append, hcursor, hone]
        · dsimp only
          rw [hlen, hbefore, List.length_append]
        · intro x hx
          refine h.printable x ?_
          rw [hafter]
          rw [List.append_assoc] at hx
          exact hx
  · have hfocus' : ¬ d.focus = .input := h.focus ▸ hfocus
    rw [if_neg hfocus, if_neg hfocus']
    exact ⟨h.text, h.capacity, h.cursor, h.length, h.room, h.printable, rfl, h.contacts,
      h.selectedIdx⟩

theorem takeWhile_nul
    {text : Bytes} (h : 0 ∉ text) (rest : Bytes) :
    (text ++ 0 :: rest).takeWhile (· ≠ 0) = text := by
  have hall : ∀ c ∈ text, decide (c ≠ 0) = true := by
    intro c hc
    refine decide_eq_true ?_
    rintro rfl
    exact h hc
  rw [List.takeWhile_append_of_pos hall]
  simp

/-- An empty draft is shown whatever the buffer holds. -/
theorem Shows.cleared
    (h : Shows t d) (buf : Bytes) (hbuf : buf.length = 4096) (count : Nat) (offset : Int) :
    Shows { t with inputBuf := buf, inputLen := 0, inputCursor := 0, focus := .input,
                   chatLineCount := count, chatScrollOffset := offset }
      { d with before := [], after := [], focus := .input } :=
  ⟨⟨buf, rfl⟩, hbuf, rfl, rfl, Nat.zero_le _, by simp, rfl, h.contacts, h.selectedIdx⟩

/-- What Enter is to do: return the draft's line and wipe the buffer, or show the new draft. -/
def Answers (result : Option Bytes × Tui) (meant : Option Bytes × Draft) : Prop :=
  result.1 = meant.1 ∧
    if meant.1 = none then Shows result.2 meant.2
    else Shows { result.2 with inputBuf := List.replicate 4096 0 } meant.2

theorem Shows.enterSidebar
    (h : Shows t d) (hfocus : d.focus = .sidebar) :
    Answers (handleEnter t) d.enter := by
  obtain ⟨rest, htext⟩ := h.text
  have hcap := h.capacity
  have hwiped : (List.replicate 4096 (0 : UInt8)).length = 4096 := List.length_replicate
  cases hcontact : d.contacts[d.selectedIdx]? with
  | some contact =>
      have hdraft : d.enter = (some (connectText ++ contact.onion),
          { d with before := [], after := [], focus := .input }) := by
        unfold Draft.enter
        rw [if_pos hfocus, hcontact]
      have hno : 0 ∉ connectText ++ contact.onion := by
        intro hmem
        obtain hmem | hmem := List.mem_append.mp hmem
        · revert hmem
          decide
        · exact (contact.ascii 0 hmem).2 rfl
      have hline : (poke t.inputBuf 0 (connectText ++ contact.onion ++ [0])).takeWhile (· ≠ 0) =
          connectText ++ contact.onion := by
        rw [poke_zero, List.append_assoc _ [0]]
        exact takeWhile_nul hno _
      have hrun : handleEnter t = (some (connectText ++ contact.onion),
          { t with inputBuf := poke t.inputBuf 0 (connectText ++ contact.onion ++ [0]),
                   inputLen := 0, inputCursor := 0, focus := .input, chatLineCount := 0,
                   chatScrollOffset := 0 }) := by
        unfold handleEnter
        rw [if_pos (h.focus.trans hfocus), h.contacts, h.selectedIdx, hcontact]
        dsimp only
        rw [hline]
      rw [hrun, hdraft]
      exact ⟨rfl, h.cleared _ hwiped 0 0⟩
  | none =>
      have hdraft : d.enter =
          (none, { d with before := "/connect ".toList, after := [], focus := .input }) := by
        unfold Draft.enter
        rw [if_pos hfocus, hcontact]
      have hrun : handleEnter t = (none,
          { t with inputBuf := poke t.inputBuf 0 (connectText ++ [0]),
                   inputLen := connectText.length, inputCursor := connectText.length,
                   focus := .input }) := by
        unfold handleEnter
        rw [if_pos (h.focus.trans hfocus), h.contacts, h.selectedIdx, hcontact]
      have hconnect : encode "/connect ".toList = connectText := by decide
      have hpoke := poke_zero (connectText ++ [0]) t.inputBuf
      rw [List.append_assoc] at hpoke
      rw [hrun, hdraft]
      refine ⟨rfl, ⟨[0] ++ t.inputBuf.drop (connectText ++ [0]).length, ?_⟩, ?_, ?_, ?_, ?_, ?_,
        rfl, h.contacts, h.selectedIdx⟩
      · dsimp only
        rw [hconnect]
        exact hpoke
      · dsimp only
        rw [hpoke]
        simp only [List.length_append, List.length_drop, List.length_singleton, hcap]
        decide
      · exact congrArg List.length hconnect.symm
      · dsimp only
        rw [hconnect]
        rfl
      · show connectText.length ≤ 4095
        decide
      · have hall : "/connect ".toList.all (fun c => 32 ≤ c.toNat) = true := by decide
        intro c hc
        rw [List.append_nil] at hc
        exact of_decide_eq_true (List.all_eq_true.mp hall c hc)

theorem Shows.enterInput
    (h : Shows t d) (hfocus : d.focus = .input) :
    Answers (handleEnter t) d.enter := by
  obtain ⟨rest, htext⟩ := h.text
  have hwiped : (List.replicate 4096 (0 : UInt8)).length = 4096 := List.length_replicate
  have hside : ¬ d.focus = .sidebar := by simp [hfocus]
  have hside' : ¬ t.focus = .sidebar := by simp [h.focus, hfocus]
  by_cases hempty : d.before ++ d.after = []
  · have hlen : t.inputLen = 0 := by
      rw [h.length, ← List.length_append, ← encode_append, hempty]
      rfl
    have hdraft : d.enter = (none, d) := by
      unfold Draft.enter
      rw [if_neg hside, if_pos hempty]
    have hrun : handleEnter t = (none, t) := by
      unfold handleEnter
      rw [if_neg hside', if_pos hlen]
    rw [hrun, hdraft]
    exact ⟨rfl, h⟩
  · have hlen : ¬ t.inputLen = 0 := by
      rw [h.length, ← List.length_append, ← encode_append, List.length_eq_zero_iff,
        encode_eq_nil_iff]
      exact hempty
    have hdraft : d.enter = (some (encode (d.before ++ d.after)),
        { d with before := [], after := [], focus := .input }) := by
      unfold Draft.enter
      rw [if_neg hside, if_neg hempty, hfocus]
    have hline : (poke t.inputBuf t.inputLen [0]).takeWhile (· ≠ 0) =
        encode (d.before ++ d.after) := by
      rw [htext, h.length, ← List.append_assoc, ← List.length_append, poke_append, encode_append]
      refine takeWhile_nul ?_ _
      rw [← encode_append]
      exact encode_no_nul h.printable
    have hrun : handleEnter t = (some (encode (d.before ++ d.after)),
        { t with inputBuf := poke t.inputBuf t.inputLen [0], inputLen := 0, inputCursor := 0,
                 focus := .input, chatLineCount := t.chatLineCount, chatScrollOffset := 0 }) := by
      unfold handleEnter
      rw [if_neg hside', if_neg hlen]
      dsimp only
      rw [hline, h.focus, hfocus]
    rw [hrun, hdraft]
    exact ⟨rfl, h.cleared _ hwiped _ 0⟩

/-- Enter returns the text of the draft, or the command of the sidebar. -/
theorem Shows.enter
    (h : Shows t d) :
    Answers (handleEnter t) d.enter := by
  cases hfocus : d.focus with
  | sidebar => exact h.enterSidebar hfocus
  | input => exact h.enterInput hfocus

/--
The keys for which the byte editor does what is meant: an arrow in the input line passes over an
ASCII byte, and a typed character does not have the number of a special key.
-/
def Steady (t : Tui) : Key → Prop
  | .left => t.focus = .input → 0 < t.inputCursor → t.inputBuf.getD (t.inputCursor - 1) 0 < 0x80
  | .right =>
      t.focus = .input → t.inputCursor < t.inputLen → t.inputBuf.getD t.inputCursor 0 < 0x80
  | .char c _ => ¬ (0xFFE9 ≤ c.toNat ∧ c.toNat ≤ 0xFFF2)
  | _ => True

theorem Shows.answers
    {t' : Tui} {d' : Draft} (h : Shows t' d') :
    Answers (none, t') (none, d') :=
  ⟨rfl, h⟩

theorem tuiHandleInput_char
    {c : Char} (hprint : 32 ≤ c.toNat ∧ c.toNat ≠ 127)
    (hkey : ¬ (0xFFE9 ≤ c.toNat ∧ c.toNat ≤ 0xFFF2)) :
    tuiHandleInput t c.toNat = (none, handleCharacter t c.toNat) := by
  unfold tuiHandleInput
  rw [if_neg (by omega), if_neg (by omega), if_neg (by omega), if_neg (by omega),
    if_neg (by omega), if_neg (by omega), if_neg (by omega), if_neg (by omega), if_neg (by omega),
    if_neg (by omega), if_neg (by omega), if_neg (by omega), if_neg (by omega)]

/-- Scrolling and quitting leave the input alone. -/
theorem Shows.elsewhere
    (h : Shows t d) (offset : Int) (quit : Bool) :
    Shows { t with chatScrollOffset := offset, shutdown := quit } d :=
  ⟨h.text, h.capacity, h.cursor, h.length, h.room, h.printable, h.focus, h.contacts, h.selectedIdx⟩

theorem Shows.toggle
    (h : Shows t d) :
    Shows (toggleFocus t) { d with focus := if d.focus = .input then .sidebar else .input } := by
  refine ⟨h.text, h.capacity, h.cursor, h.length, h.room, h.printable, ?_, h.contacts,
    h.selectedIdx⟩
  show (if t.focus = .input then Focus.sidebar else .input) = _
  rw [h.focus]

theorem Shows.up
    (h : Shows t d) :
    Shows (handleUp t) (if d.focus = .sidebar then
      { d with selectedIdx := if d.selectedIdx > 0 then d.selectedIdx - 1 else d.contacts.length }
      else d) := by
  unfold handleUp
  by_cases hfocus : t.focus = .sidebar
  · have hfocus' : d.focus = .sidebar := h.focus ▸ hfocus
    rw [if_pos hfocus, if_pos hfocus']
    refine ⟨h.text, h.capacity, h.cursor, h.length, h.room, h.printable, h.focus, h.contacts, ?_⟩
    dsimp only
    rw [h.selectedIdx, h.contacts]
  · have hfocus' : ¬ d.focus = .sidebar := h.focus ▸ hfocus
    rw [if_neg hfocus, if_neg hfocus']
    exact h.elsewhere _ _

theorem Shows.down
    (h : Shows t d) :
    Shows (handleDown t) (if d.focus = .sidebar then
      { d with selectedIdx := if d.selectedIdx < d.contacts.length then d.selectedIdx + 1 else 0 }
      else d) := by
  unfold handleDown
  by_cases hfocus : t.focus = .sidebar
  · have hfocus' : d.focus = .sidebar := h.focus ▸ hfocus
    rw [if_pos hfocus, if_pos hfocus']
    refine ⟨h.text, h.capacity, h.cursor, h.length, h.room, h.printable, h.focus, h.contacts, ?_⟩
    dsimp only
    rw [h.selectedIdx, h.contacts]
  · have hfocus' : ¬ d.focus = .sidebar := h.focus ▸ hfocus
    rw [if_neg hfocus, if_neg hfocus']
    exact h.elsewhere _ _

theorem Shows.home
    (h : Shows t d) :
    Shows (if t.focus = .input then { t with inputCursor := 0 } else t)
      (if d.focus = .input then { d with before := [], after := d.before ++ d.after } else d) := by
  obtain ⟨rest, htext⟩ := h.text
  by_cases hfocus : t.focus = .input
  · have hfocus' : d.focus = .input := h.focus ▸ hfocus
    rw [if_pos hfocus, if_pos hfocus']
    refine ⟨⟨rest, ?_⟩, h.capacity, rfl, ?_, h.room, h.printable, h.focus, h.contacts,
      h.selectedIdx⟩
    · dsimp only
      rw [htext, encode_append, List.append_assoc]
      rfl
    · dsimp only
      rw [h.length, encode_append, List.length_append]
      exact (Nat.zero_add _).symm
  · have hfocus' : ¬ d.focus = .input := h.focus ▸ hfocus
    rw [if_neg hfocus, if_neg hfocus']
    exact h

theorem Shows.toEnd
    (h : Shows t d) :
    Shows (if t.focus = .input then { t with inputCursor := t.inputLen } else t)
      (if d.focus = .input then { d with before := d.before ++ d.after, after := [] } else d) := by
  obtain ⟨rest, htext⟩ := h.text
  by_cases hfocus : t.focus = .input
  · have hfocus' : d.focus = .input := h.focus ▸ hfocus
    have hlen : t.inputLen = (encode (d.before ++ d.after)).length := by
      rw [h.length, encode_append, List.length_append]
    rw [if_pos hfocus, if_pos hfocus']
    refine ⟨⟨rest, ?_⟩, h.capacity, hlen, hlen, h.room, ?_, h.focus, h.contacts, h.selectedIdx⟩
    · dsimp only
      rw [htext, encode_append, List.append_assoc]
      rfl
    · dsimp only
      rw [List.append_nil]
      exact h.printable
  · have hfocus' : ¬ d.focus = .input := h.focus ▸ hfocus
    rw [if_neg hfocus, if_neg hfocus']
    exact h

/-- A key does to the buffer what it means for the draft. -/
theorem Shows.press
    (h : Shows t d) (k : Key) (hk : Steady t k) :
    Answers (tuiHandleInput t k.code) (d.press k) := by
  cases k with
  | char c hprint =>
      rw [Key.code, tuiHandleInput_char hprint hk]
      exact (h.insert c hprint).answers
  | ctrlC => exact (h.elsewhere t.chatScrollOffset true).answers
  | ctrlP => exact (h.elsewhere t.chatScrollOffset true).answers
  | tab => exact h.toggle.answers
  | backTab => exact h.toggle.answers
  | pageUp => exact (h.elsewhere _ t.shutdown).answers
  | pageDown => exact (h.elsewhere _ t.shutdown).answers
  | up => exact h.up.answers
  | down => exact h.down.answers
  | left => exact (h.left hk).answers
  | right => exact (h.right hk).answers
  | lineFeed => exact h.enter
  | enter => exact h.enter
  | backspace => exact h.backspace.answers
  | rubout => exact h.backspace.answers
  | delete => exact h.delete.answers
  | home => exact h.home.answers
  | toEnd => exact h.toEnd.answers

/-- The same with the wiping of the buffer behind a returned line. -/
theorem Shows.step
    (h : Shows t d) (ev : TuiEvent) (hev : ∀ k, ev = .key k → Steady t k) :
    (tuiStep t ev).1 = (d.step ev).1 ∧ Shows (tuiStep t ev).2 (d.step ev).2 := by
  cases ev with
  | key k =>
      obtain ⟨hline, hshows⟩ := h.press k (hev k rfl)
      show (tuiStep t (.key k)).1 = (d.press k).1 ∧ Shows (tuiStep t (.key k)).2 (d.press k).2
      unfold tuiStep
      dsimp only
      rcases hrun : tuiHandleInput t k.code with ⟨line, t'⟩
      rw [hrun] at hline hshows
      dsimp only at hline hshows
      cases line with
      | none =>
          rw [if_pos hline.symm] at hshows
          exact ⟨hline, hshows⟩
      | some line =>
          have hsome : ¬ (d.press k).1 = none := by
            rw [← hline]
            simp
          rw [if_neg hsome] at hshows
          exact ⟨hline, hshows⟩
  | loadContacts contacts =>
      exact ⟨rfl, h.text, h.capacity, h.cursor, h.length, h.room, h.printable, h.focus, rfl,
        h.selectedIdx⟩
  | drawChat rows lineCount scrollOffset =>
      exact ⟨rfl, h.text, h.capacity, h.cursor, h.length, h.room, h.printable, h.focus, h.contacts,
        h.selectedIdx⟩

/-- Every key of the run is steady where it is pressed. -/
def SteadyRun (t : Tui) : List TuiEvent → Prop
  | [] => True
  | ev :: evs => (∀ k, ev = .key k → Steady t k) ∧ SteadyRun (tuiStep t ev).2 evs

theorem Shows.run
    {evs : List TuiEvent} (h : Shows t d) (hevs : SteadyRun t evs) :
    (tuiRun t evs).1 = (d.run evs).1 ∧ Shows (tuiRun t evs).2 (d.run evs).2 := by
  induction evs generalizing t d with
  | nil =>
      exact ⟨rfl, h⟩
  | cons ev evs ih =>
      obtain ⟨hev, hrest⟩ := hevs
      obtain ⟨hline, hstep⟩ := h.step ev hev
      obtain ⟨hlines, hshows⟩ := ih hstep hrest
      refine ⟨?_, hshows⟩
      rw [tuiRun, Draft.run, hline, hlines]

theorem SteadyRun.of_prefix
    {evs pre : List TuiEvent} (h : SteadyRun t evs) (hpre : pre <+: evs) :
    SteadyRun t pre := by
  induction pre generalizing t evs with
  | nil =>
      trivial
  | cons ev pre ih =>
      obtain ⟨rest, rfl⟩ := hpre
      exact ⟨h.1, ih h.2 ⟨rest, rfl⟩⟩

theorem shows_initial : Shows {} {} :=
  ⟨⟨List.replicate 4096 0, rfl⟩, List.length_replicate, rfl, rfl, Nat.zero_le _, by simp, rfl, rfl,
    rfl⟩

end Refinement

section Runs

theorem valid_of_ascii
    {s : Bytes} (h : ∀ c ∈ s, c < 0x80) :
    Valid s := by
  induction s with
  | nil =>
      exact valid_nil
  | cons c s ih =>
      obtain ⟨hc, hs⟩ := List.forall_mem_cons.mp h
      exact (valid_ascii_cons_iff hc).mpr (ih hs)

theorem Draft.enter_valid
    (d : Draft) :
    ∀ line ∈ d.enter.1, Valid line := by
  intro line hline
  unfold Draft.enter at hline
  split at hline
  · split at hline
    · rename_i contact _
      obtain rfl : connectText ++ contact.onion = line := by simpa using hline
      have hconnect : connectText.all (fun c => decide (c < 0x80)) = true := by decide +kernel
      refine valid_of_ascii fun c hc => ?_
      obtain hc | hc := List.mem_append.mp hc
      · exact of_decide_eq_true (List.all_eq_true.mp hconnect c hc)
      · exact (contact.ascii c hc).1
    · simp at hline
  · split at hline
    · simp at hline
    · obtain rfl : encode (d.before ++ d.after) = line := by simpa using hline
      exact encode_valid _

theorem Draft.step_valid
    (d : Draft) (ev : TuiEvent) :
    ∀ line ∈ (d.step ev).1, Valid line := by
  cases ev with
  | loadContacts contacts =>
      intro line hline
      cases hline
  | drawChat rows lineCount scrollOffset =>
      intro line hline
      cases hline
  | key k =>
      cases k with
      | lineFeed => exact d.enter_valid
      | enter => exact d.enter_valid
      | _ =>
          intro line hline
          cases hline

theorem Draft.run_valid
    (d : Draft) (evs : List TuiEvent) :
    ∀ line ∈ (d.run evs).1, Valid line := by
  induction evs generalizing d with
  | nil =>
      simp [Draft.run]
  | cons ev evs ih =>
      intro line hline
      obtain hline | hline := List.mem_append.mp hline
      · exact d.step_valid ev line (Option.mem_toList.mp hline)
      · exact ih _ line hline

/--
In every run in which each arrow key in the input line passes over an ASCII character and no typed
character has the number of a special key, every state has its cursor on a boundary of valid
UTF-8 within the buffer, and it shows exactly the characters that the keys have left; so every
returned line is valid UTF-8 and is the line that is meant.
-/
theorem tui_editor_runs
    (evs : List TuiEvent) (h : SteadyRun {} evs) :
    ∀ pre, pre <+: evs →
      ((tuiRun {} pre).2.inputCursor ≤ (tuiRun {} pre).2.inputLen ∧
        (tuiRun {} pre).2.inputLen ≤ 4095 ∧
        Valid ((tuiRun {} pre).2.inputBuf.take (tuiRun {} pre).2.inputLen) ∧
        Valid ((tuiRun {} pre).2.inputBuf.take (tuiRun {} pre).2.inputCursor)) ∧
      (tuiRun {} pre).2.inputBuf.take (tuiRun {} pre).2.inputLen =
        encode ((Draft.run {} pre).2.before ++ (Draft.run {} pre).2.after) ∧
      (tuiRun {} pre).2.inputCursor = (encode (Draft.run {} pre).2.before).length ∧
      (tuiRun {} pre).1 = (Draft.run {} pre).1 ∧
      ∀ line ∈ (tuiRun {} pre).1, Valid line := by
  intro pre hpre
  obtain ⟨hlines, hshows⟩ := shows_initial.run (h.of_prefix hpre)
  generalize (tuiRun {} pre).2 = t at hshows ⊢
  generalize (Draft.run {} pre).2 = d at hshows ⊢
  obtain ⟨rest, htext⟩ := hshows.text
  have hbefore : t.inputBuf.take t.inputCursor = encode d.before := by
    rw [htext, hshows.cursor, List.take_left]
  have hall : t.inputBuf.take t.inputLen = encode (d.before ++ d.after) := by
    rw [htext, hshows.length, List.take_length_add_append, List.take_left, encode_append]
  refine ⟨⟨?_, hshows.room, ?_, ?_⟩, hall, hshows.cursor, hlines, ?_⟩
  · rw [hshows.cursor, hshows.length]
    exact Nat.le_add_right _ _
  · rw [hall]
    exact encode_valid _
  · rw [hbefore]
    exact encode_valid _
  · rw [hlines]
    exact Draft.run_valid {} pre

/-- "a", ←, "é" and Enter. -/
def steadyKeys : List TuiEvent :=
  [.key (.char 'a' (by decide)), .key .left, .key (.char 'é' (by decide)), .key .enter]

theorem tui_editor_runs_steady :
    (tuiRun {} steadyKeys).1 = [[0xc3, 0xa9, 0x61]] ∧
      ∀ line ∈ (tuiRun {} steadyKeys).1, Valid line := by
  have hsteady : SteadyRun {} steadyKeys := by
    refine ⟨?_, ?_, ?_, ?_, trivial⟩
    · rintro k hk
      obtain rfl := TuiEvent.key.inj hk
      show ¬ (0xFFE9 ≤ 'a'.toNat ∧ 'a'.toNat ≤ 0xFFF2)
      decide
    · rintro k hk
      obtain rfl := TuiEvent.key.inj hk
      intro _ _
      decide +kernel
    · rintro k hk
      obtain rfl := TuiEvent.key.inj hk
      show ¬ (0xFFE9 ≤ 'é'.toNat ∧ 'é'.toNat ≤ 0xFFF2)
      decide
    · rintro k hk
      obtain rfl := TuiEvent.key.inj hk
      trivial
  exact ⟨by decide +kernel, (tui_editor_runs steadyKeys hsteady steadyKeys List.prefix_rfl).2.2.2.2⟩

/-- "é", ←, "a" and Enter. -/
def splitKeys : List TuiEvent :=
  [.key (.char 'é' (by decide)), .key .left, .key (.char 'a' (by decide)), .key .enter]

/-- The cursor lands inside "é" and the returned line is not UTF-8. -/
theorem tui_editor_splits_character :
    (tuiRun {} (splitKeys.take 2)).2.inputCursor = 1 ∧
      ¬ Valid ((tuiRun {} (splitKeys.take 2)).2.inputBuf.take 1) ∧
      (tuiRun {} splitKeys).1 = [[0xc3, 0x61, 0xa9]] ∧ ¬ Valid [0xc3, 0x61, 0xa9] := by
  have hbuf : (tuiRun {} (splitKeys.take 2)).2.inputBuf.take 1 = [0xc3] := by
    decide +kernel
  refine ⟨by decide +kernel, ?_, by decide +kernel, ?_⟩
  · rw [hbuf]
    intro h
    exact absurd h.take_width (by decide)
  · intro h
    exact absurd h.take_width (by decide)

end Runs

end Ui
end Noxtor
