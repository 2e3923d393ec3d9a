import Mathlib.Data.List.TakeWhile
import Noxtor.App.Onion
import Noxtor.Ui.StripAnsi

/-!
# Incoming text on the terminal

`ui_print_incoming` of the ANSI frontend.  Every byte that goes to the terminal is marked as the
program's own or as one of the message, so that one can say of a line of the output whether it
shows something of the message and who wrote its beginning.

`ui_strip_ansi` keeps LF and CR, and `atomic_message` writes what is left as it is: behind a line
break of the message the next line is the peer's from its first byte on.
-/

namespace Noxtor
namespace Ui

open ByteString
open App (PeerSession cstr onionSuffix)

/-- LF or CR. -/
def lineBreak (c : UInt8) : Bool :=
  c = 0x0a || c = 0x0d

/-- The bytes of an ASCII text. -/
def ascii (s : String) : Bytes :=
  s.toList.map fun c => UInt8.ofNat c.toNat

/-- `%d` of a number that is not negative. -/
def decimal (n : Nat) : Bytes :=
  (Nat.toDigits 10 n).map fun c => UInt8.ofNat c.toNat

/-- `%02d` of a number below 100. -/
def twoDigits (n : Nat) : Bytes :=
  [0x30 + UInt8.ofNat (n / 10), 0x30 + UInt8.ofNat (n % 10)]

theorem oneLine_of_all
    {s : Bytes} (h : s.all (fun c => !lineBreak c) = true) :
    ∀ c ∈ s, lineBreak c = false := by
  simpa using h

theorem colours_oneLine
    {colours : List Bytes} (h : colours.all (fun s => s.all fun c => !lineBreak c) = true) :
    ∀ s ∈ colours, ∀ c ∈ s, lineBreak c = false :=
  fun s hs => oneLine_of_all (List.all_eq_true.mp h s hs)

/-- `struct nox_theme`, as far as messages use it; a colour does not end the line. -/
structure NoxTheme where
  clrSelf : Bytes
  clrPeer : Bytes
  clrError : Bytes
  clrPrompt : Bytes
  clrTimestamp : Bytes
  clrReset : Bytes
  oneLine : ∀ s ∈ [clrSelf, clrPeer, clrError, clrPrompt, clrTimestamp, clrReset], ∀ c ∈ s,
    lineBreak c = false

def noxThemeDefault : NoxTheme where
  clrSelf := ascii "\x1b[38;2;38;162;105m"
  clrPeer := ascii "\x1b[38;2;133;60;153m"
  clrError := ascii "\x1b[1;38;2;210;24;38m"
  clrPrompt := ascii "\x1b[38;2;34;105;121m"
  clrTimestamp := ascii "\x1b[38;2;31;65;117m"
  clrReset := ascii "\x1b[0m"
  oneLine := colours_oneLine (by decide +kernel)

/-- `enum ui_label`. -/
inductive UiLabel where
  | none
  | self
  | peer
  | error
deriving DecidableEq, Repr

/-- The fields of `struct tm` that are shown. -/
structure Clock where
  hour : Fin 24
  min : Fin 60
  sec : Fin 61

/--
What the ANSI frontend reads: its own `g_ansi`, the width the terminal reports, and the fields of
`struct app_state` for the input line and the prompt.
-/
structure AnsiUi where
  theme : NoxTheme := noxThemeDefault
  lastLabel : UiLabel := .none
  tuiActive : Bool := false
  winsize : Option Nat := none
  lnActive : Bool := false
  promptDisplayLen : Nat := 0
  stdinBuf : Bytes := []
  activePeer : Option PeerSession := none
  activePeerOnion : Bytes := []

/-- Who has chosen a byte of the output. -/
inductive Origin where
  | program
  | message
deriving DecidableEq, Repr

/-- Bytes on their way to the terminal. -/
abbrev Output := List (Origin × UInt8)

def own (b : Bytes) : Output :=
  b.map (Prod.mk .program)

def theirs (b : Bytes) : Output :=
  b.map (Prod.mk .message)

section Frontend

variable (ui : AnsiUi)

def getTerminalCols : Nat :=
  match ui.winsize with
  | some cols => if 0 < cols then cols else 80
  | none => 80

/-- The length of the address without ".onion". -/
def onionHashLen (onion : Bytes) : Nat :=
  if onion.drop (onion.length - 6) = onionSuffix then onion.length - 6 else onion.length

def transferShown (ps : PeerSession) : Bool :=
  (ps.txFile.active && 0 < ps.txFile.totalSize) || (ps.rxFile.active && 0 < ps.rxFile.expectedSize)

def calcPromptDisplayLen : Nat :=
  match ui.activePeer with
  | none => 5
  | some ps =>
      if ui.activePeerOnion = [] then 5
      else
        let olen := ui.activePeerOnion.length
        let idLen :=
          if olen > 10 then
            if onionHashLen ui.activePeerOnion ≥ 8 then 10 else onionHashLen ui.activePeerOnion
          else olen
        1 + idLen + 1 + 3 + if transferShown ps then 7 else 0

def calcCurrentInputLines : Nat :=
  let cols := getTerminalCols ui
  let total := ui.promptDisplayLen + ui.stdinBuf.length
  if total = 0 then 1 else (total + cols - 1) / cols

/-- `ESC [ <n> A`. -/
def cursorUp (n : Nat) : Bytes :=
  [0x1b, 0x5b] ++ decimal n ++ [0x41]

def clearPromptAreaLines (lines : Nat) : Bytes :=
  if ui.tuiActive then []
  else
    let lines := max lines 1
    (if lines > 1 then cursorUp (lines - 1) else []) ++ ascii "\x1b[1G\x1b[J"

/-- The address in the prompt, shortened. -/
def shortId (onion : Bytes) : Bytes :=
  if onion.length > 10 then
    let hashLen := onionHashLen onion
    if hashLen ≥ 8 then
      onion.take 4 ++ [0x2e, 0x2e] ++ (onion.drop (hashLen - 4)).take 4
    else
      onion.take hashLen
  else
    onion.take 11

def percent (done total : Nat) : Nat :=
  min (done * 100 % 2 ^ 64 / total % 2 ^ 32) 100

/-- The text of `ui_print_prompt` between the colours. -/
def promptText : Bytes :=
  match ui.activePeer with
  | none => ascii "nox> "
  | some ps =>
      if ui.activePeerOnion = [] then ascii "nox> "
      else
        let id := shortId ui.activePeerOnion
        let inner :=
          if ps.txFile.active && 0 < ps.txFile.totalSize then
            id ++ [0x20, 0xe2, 0xac, 0x86] ++
              decimal (percent ps.txFile.sentBytes ps.txFile.totalSize) ++ [0x25]
          else if ps.rxFile.active && 0 < ps.rxFile.expectedSize then
            id ++ [0x20, 0xe2, 0xac, 0x87] ++
              decimal (percent ps.rxFile.receivedBytes ps.rxFile.expectedSize) ++ [0x25]
          else id
        [0x5b] ++ inner ++ [0x5d] ++ ascii " > "

def uiPrintPrompt : Bytes × AnsiUi :=
  if ui.tuiActive then ([], ui)
  else
    (ui.theme.clrPrompt ++ promptText ui ++ ui.theme.clrReset,
      { ui with promptDisplayLen := calcPromptDisplayLen ui })

def redrawInput : Bytes × AnsiUi :=
  if ui.tuiActive then ([], ui)
  else if ui.activePeer.any (·.tofuPending) then ([], ui)
  else
    let (prompt, ui) := uiPrintPrompt ui
    (ascii "\x1b[J" ++ prompt ++ ui.stdinBuf, ui)

def printLabel : UiLabel → Bytes
  | .self => ui.theme.clrSelf ++ ascii "Sen:" ++ ui.theme.clrReset
  | .peer => ui.theme.clrPeer ++ ascii "Peer:" ++ ui.theme.clrReset
  | .error => ui.theme.clrError ++ ascii "!:" ++ ui.theme.clrReset
  | .none => []

def printTimestampShort (tm : Clock) : Bytes :=
  ui.theme.clrTimestamp ++ [0x5b] ++ twoDigits tm.hour ++ [0x3a] ++ twoDigits tm.min ++ [0x3a] ++
    twoDigits tm.sec ++ [0x5d] ++ ui.theme.clrReset ++ [0x20]

/-- The string in `safe_msg` after `ui_strip_ansi`. -/
def safeMsg (msg : Bytes) : Bytes :=
  cstr ((uiStripAnsi (msg ++ [0])).getD [])

/-- The blank line between messages of two senders. -/
def senderGap (label : UiLabel) : Bytes :=
  if ui.lastLabel ≠ .none ∧ ui.lastLabel ≠ label then [0x0a] else []

/-- `atomic_message`; `alloc` tells whether the copy of the message can be allocated. -/
def atomicMessage (alloc : Bool) (label : UiLabel) (msg : Bytes) (tm : Clock) : Output × AnsiUi :=
  if alloc = false then ([], ui)
  else
    let line := own (senderGap ui label) ++ own (printTimestampShort ui tm) ++
      own (printLabel ui label) ++ own [0x20] ++ theirs (safeMsg msg) ++ own [0x0a]
    let ui' := { ui with lastLabel := label }
    if ui.lnActive then (line, ui')
    else
      let clear := clearPromptAreaLines ui (calcCurrentInputLines ui)
      let (redrawn, ui') := redrawInput ui'
      (own (ascii "\x1b[?25l") ++ own clear ++ line ++ own redrawn ++ own (ascii "\x1b[?25h"), ui')

/-- `strspn(msg, " \t") == strlen(msg)`. -/
def blankText (msg : Bytes) : Bool :=
  msg.all fun c => c = 0x20 || c = 0x09

/-- `ui_print_incoming` of the ANSI frontend on a decrypted plaintext. -/
def uiPrintIncoming (alloc : Bool) (tm : Clock) (plaintext : Bytes) : Output × AnsiUi :=
  let msg := cstr plaintext
  if blankText msg = true then ([], ui)
  else atomicMessage ui alloc .peer msg tm

end Frontend

section Lines

/-- The lines of an output, each with the line break in front of it. -/
def terminalLines (before : Option (Origin × UInt8)) :
    Output → List (Option (Origin × UInt8) × Output)
  | [] => [(before, [])]
  | x :: rest =>
      if lineBreak x.2 then (before, []) :: terminalLines (some x) rest
      else (terminalLines before rest).modifyHead fun line => (line.1, x :: line.2)

/-- The line shows a byte of the message. -/
def ShowsMessage (line : Output) : Prop :=
  ∃ x ∈ line, x.1 = Origin.message

/-- Nothing but line breaks follows the first line break. -/
def breaksOnlyAtEnd (t : Bytes) : Bool :=
  (t.dropWhile fun c => !lineBreak c).all lineBreak

variable {before : Option (Origin × UInt8)}

theorem terminalLines_break
    {x : Origin × UInt8} (hx : lineBreak x.2 = true) (rest : Output) :
    terminalLines before (x :: rest) = (before, []) :: terminalLines (some x) rest := by
  rw [terminalLines, if_pos hx]

theorem terminalLines_front
    {p : Output} (hp : ∀ x ∈ p, lineBreak x.2 = false) (rest : Output) :
    terminalLines before (p ++ rest) =
      (terminalLines before rest).modifyHead fun line => (line.1, p ++ line.2) := by
  induction p with
  | nil =>
      cases h : terminalLines before rest with
      | nil => rw [List.nil_append, h]; rfl
      | cons line lines => rw [List.nil_append, h]; rfl
  | cons x p ih =>
      obtain ⟨hx, hp⟩ := List.forall_mem_cons.mp hp
      rw [List.cons_append, terminalLines, if_neg (by simp [hx]), ih hp]
      cases terminalLines before rest with
      | nil => rfl
      | cons line lines => rfl

/-- The first line goes to the first break. -/
theorem terminalLines_cons
    (before : Option (Origin × UInt8)) (out : Output) :
    ∃ line lines, terminalLines before out = (before, line) :: lines := by
  induction out with
  | nil =>
      exact ⟨[], [], rfl⟩
  | cons x rest ih =>
      rw [terminalLines]
      by_cases hx : lineBreak x.2 = true
      · rw [if_pos hx]
        exact ⟨_, _, rfl⟩
      · obtain ⟨line, lines, hlines⟩ := ih
        rw [if_neg hx, hlines]
        exact ⟨_, _, rfl⟩

theorem own_lines
    (b : Bytes) (before : Option (Origin × UInt8)) :
    ∀ line ∈ terminalLines before (own b), ¬ ShowsMessage line.2 := by
  induction b generalizing before with
  | nil =>
      rintro line hline ⟨x, hx, -⟩
      obtain rfl : line = (before, []) := by simpa [own, terminalLines] using hline
      cases hx
  | cons c b ih =>
      rw [show own (c :: b) = (Origin.program, c) :: own b from rfl, terminalLines]
      by_cases hc : lineBreak c = true
      · rw [if_pos hc]
        refine List.forall_mem_cons.mpr ⟨?_, ih _⟩
        rintro ⟨x, hx, -⟩
        cases hx
      · rw [if_neg hc]
        obtain ⟨first, rest, hlines⟩ := terminalLines_cons before (own b)
        have hprev := ih before
        rw [hlines] at hprev ⊢
        obtain ⟨hfirst, hrest⟩ := List.forall_mem_cons.mp hprev
        refine List.forall_mem_cons.mpr ⟨?_, hrest⟩
        rintro ⟨x, hx, hmsg⟩
        obtain rfl | hx := List.mem_cons.mp hx
        · cases hmsg
        · exact hfirst ⟨x, hx, hmsg⟩

theorem showsMessage_theirs
    (t : Bytes) :
    ShowsMessage (theirs t) ↔ t ≠ [] := by
  cases t with
  | nil => simp [ShowsMessage, theirs]
  | cons c t => simp [ShowsMessage, theirs]

/-- Behind a line break, anything but another line break shows. -/
theorem shows_behind_break
    (t : Bytes) :
    (t.takeWhile (fun c => !lineBreak c) ≠ [] ∨ breaksOnlyAtEnd t = false) ↔
      t.all lineBreak = false := by
  cases t with
  | nil =>
      simp [breaksOnlyAtEnd]
  | cons c t =>
      cases hc : lineBreak c with
      | true => simp [breaksOnlyAtEnd, hc]
      | false => simp [hc]

/-- The lines of the message: all but the first follow a line break of the message and hold
nothing of the program, and they are empty if and only if the message breaks lines only at its
end. -/
theorem message_lines
    (t post : Bytes) (before : Option (Origin × UInt8)) :
    ∃ lines, terminalLines before (theirs t ++ own (0x0a :: post)) =
        (before, theirs (t.takeWhile fun c => !lineBreak c)) :: lines ∧
      (∀ line ∈ lines, ShowsMessage line.2 →
        (∃ c, line.1 = some (.message, c)) ∧ ∀ x ∈ line.2, x.1 = Origin.message) ∧
      ((∃ line ∈ lines, ShowsMessage line.2) ↔ breaksOnlyAtEnd t = false) := by
  induction t generalizing before with
  | nil =>
      have hown := own_lines post (some (.program, 0x0a))
      refine ⟨_, terminalLines_break rfl (own post), ?_, ?_⟩
      · intro line hline hshow
        exact absurd hshow (hown line hline)
      · constructor
        · rintro ⟨line, hline, hshow⟩
          exact absurd hshow (hown line hline)
        · intro h
          simp [breaksOnlyAtEnd] at h
  | cons c t ih =>
      rw [show theirs (c :: t) = (Origin.message, c) :: theirs t from rfl, List.cons_append]
      cases hc : lineBreak c with
      | true =>
          obtain ⟨lines, hlines, hmsg, hshows⟩ := ih (some (.message, c))
          rw [terminalLines_break hc, hlines]
          refine ⟨(some (.message, c), theirs (t.takeWhile fun d => !lineBreak d)) :: lines,
            by simp [hc, theirs], ?_, ?_⟩
          · refine List.forall_mem_cons.mpr ⟨fun _ => ⟨⟨c, rfl⟩, ?_⟩, hmsg⟩
            intro x hx
            obtain ⟨d, -, rfl⟩ := List.mem_map.mp hx
            rfl
          · have hall : breaksOnlyAtEnd (c :: t) = t.all lineBreak := by
              simp [breaksOnlyAtEnd, hc]
            rw [hall, ← shows_behind_break, List.exists_mem_cons_iff, hshows, showsMessage_theirs]
      | false =>
          obtain ⟨lines, hlines, hmsg, hshows⟩ := ih before
          refine ⟨lines, ?_, hmsg, ?_⟩
          · rw [terminalLines, if_neg (by simp [hc]), hlines]
            simp [hc, theirs]
          · rw [hshows]
            simp [breaksOnlyAtEnd, hc]

end Lines

section Own

variable (ui : AnsiUi)

theorem decimal_digit
    {n : Nat} {c : UInt8} (h : c ∈ decimal n) :
    csiByte c = true ∧ lineBreak c = false := by
  obtain ⟨ch, hch, rfl⟩ := List.mem_map.mp h
  have hdigit := Nat.isDigit_of_mem_toDigits (by decide) (by decide) hch
  have hall : ∀ k < 10, csiByte (UInt8.ofNat (48 + k)) = true ∧
      lineBreak (UInt8.ofNat (48 + k)) = false := by
    decide
  simp only [Char.isDigit, Bool.and_eq_true, decide_eq_true_eq, UInt32.le_iff_toNat_le] at hdigit
  obtain ⟨k, hk⟩ := Nat.exists_eq_add_of_le hdigit.1
  have hval : ch.toNat = 48 + k := hk
  have hlt : k < 10 := by
    have hhi : ch.toNat ≤ 57 := hdigit.2
    omega
  rw [hval]
  exact hall k hlt

/-- A CSI sequence shows nothing. -/
theorem strip_csi
    (params : Bytes) (final : UInt8) (hparams : ∀ c ∈ params, csiByte c = true)
    (hfinal : csiByte final = false) (s : Bytes) :
    strip ([0x1b, 0x5b] ++ params ++ final :: s) = strip s := by
  rw [List.append_assoc, List.cons_append, List.singleton_append, strip_esc]
  dsimp only [afterEscape]
  rw [if_pos rfl, List.dropWhile_append_of_pos hparams,
    List.dropWhile_cons_of_neg (by simp [hfinal]), List.tail_cons]

/-- The cursor controls in front of a message. -/
def cursorControls : Bytes :=
  if ui.lnActive then []
  else ascii "\x1b[?25l" ++ clearPromptAreaLines ui (calcCurrentInputLines ui)

theorem cursorUp_quiet
    (n : Nat) (s : Bytes) :
    strip (cursorUp n ++ s) = strip s ∧ ∀ c ∈ cursorUp n, lineBreak c = false := by
  constructor
  · have hskip := strip_csi (decimal n) 0x41 (fun c hc => (decimal_digit hc).1) (by decide) s
    simpa [cursorUp] using hskip
  · intro c hc
    simp only [cursorUp, List.mem_append, List.mem_cons, List.not_mem_nil, or_false] at hc
    obtain ((rfl | rfl) | hc) | rfl := hc
    · decide
    · decide
    · exact (decimal_digit hc).2
    · decide

theorem clearPromptAreaLines_quiet
    (lines : Nat) :
    strip (clearPromptAreaLines ui lines) = [] ∧
      ∀ c ∈ clearPromptAreaLines ui lines, lineBreak c = false := by
  have hclear : strip (ascii "\x1b[1G\x1b[J") = [] := by decide +kernel
  have hline : ∀ c ∈ ascii "\x1b[1G\x1b[J", lineBreak c = false :=
    oneLine_of_all (by decide +kernel)
  unfold clearPromptAreaLines
  split
  · exact ⟨strip_nil, by simp⟩
  · dsimp only
    split
    · obtain ⟨hskip, hup⟩ := cursorUp_quiet (max lines 1 - 1) (ascii "\x1b[1G\x1b[J")
      exact ⟨hskip.trans hclear, List.forall_mem_append.mpr ⟨hup, hline⟩⟩
    · exact ⟨hclear, hline⟩

/-- They show nothing and stay on their line. -/
theorem cursorControls_quiet :
    strip (cursorControls ui) = [] ∧ ∀ c ∈ cursorControls ui, lineBreak c = false := by
  unfold cursorControls
  split
  · exact ⟨strip_nil, by simp⟩
  · obtain ⟨hstrip, hline⟩ := clearPromptAreaLines_quiet ui (calcCurrentInputLines ui)
    refine ⟨?_, List.forall_mem_append.mpr ⟨oneLine_of_all (by decide +kernel), hline⟩⟩
    have hhide : ascii "\x1b[?25l" = [0x1b, 0x5b] ++ [0x3f, 0x32, 0x35] ++ [0x6c] := by decide
    rw [hhide, List.append_assoc, List.singleton_append,
      strip_csi [0x3f, 0x32, 0x35] 0x6c (List.all_eq_true.mp (by decide)) (by decide)]
    exact hstrip

/-- The timestamp and the label of the peer. -/
def attribution (tm : Clock) : Bytes :=
  printTimestampShort ui tm ++ printLabel ui .peer

theorem twoDigits_oneLine
    {n : Nat} (h : n < 61) :
    ∀ c ∈ twoDigits n, lineBreak c = false := by
  have hall : ∀ n < 61, (twoDigits n).all (fun c => !lineBreak c) = true := by
    decide +kernel
  exact oneLine_of_all (hall n h)

theorem attribution_oneLine
    (tm : Clock) :
    ∀ c ∈ attribution ui tm, lineBreak c = false := by
  have htheme := ui.theme.oneLine
  have hhour := twoDigits_oneLine (n := tm.hour) (by omega)
  have hmin := twoDigits_oneLine (n := tm.min) (by omega)
  have hsec := twoDigits_oneLine tm.sec.isLt
  unfold attribution printTimestampShort printLabel
  simp only [List.forall_mem_append]
  refine ⟨⟨⟨⟨⟨⟨⟨⟨⟨⟨?_, ?_⟩, hhour⟩, ?_⟩, hmin⟩, ?_⟩, hsec⟩, ?_⟩, ?_⟩, ?_⟩, ⟨?_, ?_⟩, ?_⟩
  · exact htheme _ (by simp)
  · simp [lineBreak]
  · simp [lineBreak]
  · simp [lineBreak]
  · simp [lineBreak]
  · exact htheme _ (by simp)
  · simp [lineBreak]
  · exact htheme _ (by simp)
  · exact oneLine_of_all (by decide +kernel)
  · exact htheme _ (by simp)

end Own

section Attribution

/-- The line begins with the program's timestamp and the peer's label, behind controls that show
nothing. -/
def Attributed (ui : AnsiUi) (tm : Clock) (line : Output) : Prop :=
  ∃ controls text, strip controls = [] ∧ line = own controls ++ own (attribution ui tm) ++ text

variable {ui : AnsiUi} {tm : Clock}

theorem own_append
    (a b : Bytes) :
    own (a ++ b) = own a ++ own b :=
  List.map_append

/-- A line of the message alone is not attributed. -/
theorem not_attributed
    {line : Output} (hmsg : ∀ x ∈ line, x.1 = Origin.message) :
    ¬ Attributed ui tm line := by
  rintro ⟨controls, text, -, rfl⟩
  have hmem : (Origin.program, 0x5b) ∈
      own controls ++ own (attribution ui tm) ++ text := by
    refine List.mem_append_left _ (List.mem_append_right _ ?_)
    refine List.mem_map.mpr ⟨0x5b, ?_, rfl⟩
    simp [attribution, printTimestampShort]
  cases hmsg _ hmem

theorem safeMsg_eq
    {msg : Bytes} (h : 0 ∉ msg) :
    safeMsg msg = strip msg := by
  obtain ⟨more, hrun⟩ := uiStripAnsi_eq h []
  have hzero : ∀ c ∈ strip msg, decide (c ≠ 0) = true := by
    intro c hc
    refine decide_eq_true ?_
    rintro rfl
    exact h ((strip_sublist msg).subset hc)
  unfold safeMsg cstr
  rw [hrun, Option.getD_some, List.takeWhile_append_of_pos hzero]
  simp

/-- The output for a message that is shown. -/
theorem uiPrintIncoming_shown
    (ui : AnsiUi) (tm : Clock) {plaintext : Bytes} (hblank : blankText (cstr plaintext) = false) :
    ∃ post, (uiPrintIncoming ui true tm plaintext).1 =
      own (cursorControls ui) ++ (own (senderGap ui .peer) ++
        (own (attribution ui tm ++ [0x20]) ++
          (theirs (strip (cstr plaintext)) ++ own (0x0a :: post)))) := by
  have hmsg : 0 ∉ cstr plaintext := by
    intro hmem
    simpa using List.mem_takeWhile_imp hmem
  unfold uiPrintIncoming
  dsimp only
  rw [if_neg (by simp [hblank])]
  unfold atomicMessage
  rw [if_neg (by simp), safeMsg_eq hmsg]
  dsimp only
  split
  · rename_i hln
    refine ⟨[], ?_⟩
    simp [cursorControls, hln, attribution, own]
  · rename_i hln
    refine ⟨(redrawInput { ui with lastLabel := .peer }).1 ++ ascii "\x1b[?25h", ?_⟩
    simp [cursorControls, hln, attribution, own]

theorem own_oneLine
    {b : Bytes} (h : ∀ c ∈ b, lineBreak c = false) :
    ∀ x ∈ own b, lineBreak x.2 = false := by
  intro x hx
  obtain ⟨c, hc, rfl⟩ := List.mem_map.mp hx
  exact h c hc

theorem not_showsMessage_own
    (b : Bytes) :
    ¬ ShowsMessage (own b) := by
  rintro ⟨x, hx, hmsg⟩
  obtain ⟨c, -, rfl⟩ := List.mem_map.mp hx
  cases hmsg

/-- The lines of a message that is shown: what comes before shows nothing of it, its first line is
attributed, and the others follow a line break of the message. -/
theorem shown_lines
    (ui : AnsiUi) (tm : Clock) (t post : Bytes) :
    ∃ head first lines, terminalLines none (own (cursorControls ui) ++ (own (senderGap ui .peer) ++
        (own (attribution ui tm ++ [0x20]) ++ (theirs t ++ own (0x0a :: post))))) =
        head ++ first :: lines ∧
      (∀ line ∈ head, ¬ ShowsMessage line.2) ∧
      Attributed ui tm first.2 ∧
      (∀ line ∈ lines, ShowsMessage line.2 →
        (∃ c, line.1 = some (.message, c)) ∧ ∀ x ∈ line.2, x.1 = Origin.message) ∧
      ((∃ line ∈ lines, ShowsMessage line.2) ↔ breaksOnlyAtEnd t = false) := by
  obtain ⟨hstrip, hcontrols⟩ := cursorControls_quiet ui
  have hattr : ∀ c ∈ attribution ui tm ++ [0x20], lineBreak c = false :=
    List.forall_mem_append.mpr ⟨attribution_oneLine ui tm, by simp [lineBreak]⟩
  rw [terminalLines_front (own_oneLine hcontrols)]
  unfold senderGap
  split
  · -- the gap ends the line of the cursor controls
    obtain ⟨lines, hlines, hmsg, hshows⟩ := message_lines t post (some (.program, 0x0a))
    refine ⟨[(none, own (cursorControls ui) ++ [])], (some (.program, 0x0a),
      own (attribution ui tm ++ [0x20]) ++ theirs (t.takeWhile fun c => !lineBreak c)), lines,
      ?_, ?_, ?_, hmsg, hshows⟩
    · rw [show own [0x0a] = [(Origin.program, 0x0a)] from rfl, List.singleton_append,
        terminalLines_break rfl, terminalLines_front (own_oneLine hattr), hlines]
      rfl
    · intro line hline
      obtain rfl := List.mem_singleton.mp hline
      rw [List.append_nil]
      exact not_showsMessage_own _
    · exact ⟨[], _, strip_nil, by rw [own_append, List.append_assoc]; rfl⟩
  · obtain ⟨lines, hlines, hmsg, hshows⟩ := message_lines t post none
    refine ⟨[], (none, own (cursorControls ui) ++ (own (attribution ui tm ++ [0x20]) ++
      theirs (t.takeWhile fun c => !lineBreak c))), lines, ?_, by simp, ?_, hmsg, hshows⟩
    · rw [show own [] = [] from rfl, List.nil_append, terminalLines_front (own_oneLine hattr),
        hlines]
      rfl
    · exact ⟨cursorControls ui, _, hstrip, by rw [own_append, List.append_assoc, List.append_assoc]⟩

/--
For every plaintext and every state of the frontend: a line of the output that shows something of
the message begins with the program's timestamp and the peer's label or directly follows a line
break of the message itself.  All of them begin so if and only if nothing is shown or the text that
`ui_strip_ansi` leaves has line breaks only at its end.
-/
theorem incoming_lines_attributed
    (ui : AnsiUi) (alloc : Bool) (tm : Clock) (plaintext : Bytes) :
    (∀ line ∈ terminalLines none (uiPrintIncoming ui alloc tm plaintext).1, ShowsMessage line.2 →
        Attributed ui tm line.2 ∨ ∃ c, line.1 = some (.message, c)) ∧
      ((∀ line ∈ terminalLines none (uiPrintIncoming ui alloc tm plaintext).1,
          ShowsMessage line.2 → Attributed ui tm line.2) ↔
        blankText (cstr plaintext) = true ∨ alloc = false ∨
          breaksOnlyAtEnd (strip (cstr plaintext)) = true) := by
  by_cases hnone : blankText (cstr plaintext) = true ∨ alloc = false
  · have hout : (uiPrintIncoming ui alloc tm plaintext).1 = [] := by
      unfold uiPrintIncoming atomicMessage
      obtain hblank | halloc := hnone
      · rw [if_pos hblank]
      · simp only [halloc, if_true]
        split <;> rfl
    have hno : ∀ line ∈ terminalLines none (uiPrintIncoming ui alloc tm plaintext).1,
        ¬ ShowsMessage line.2 := by
      rw [hout]
      exact own_lines [] none
    refine ⟨fun line hline hshow => absurd hshow (hno line hline), ?_⟩
    refine ⟨fun _ => ?_, fun _ line hline hshow => absurd hshow (hno line hline)⟩
    exact hnone.imp_right Or.inl
  · obtain ⟨hblank, halloc⟩ := not_or.mp hnone
    obtain rfl : alloc = true := by simpa using halloc
    obtain ⟨post, hout⟩ := uiPrintIncoming_shown ui tm (by simpa using hblank)
    obtain ⟨head, first, lines, hlines, hhead, hfirst, hmsg, hshows⟩ :=
      shown_lines ui tm (strip (cstr plaintext)) post
    rw [hout, hlines]
    have hcases : ∀ line ∈ head ++ first :: lines, ShowsMessage line.2 →
        line = first ∨ line ∈ lines := by
      intro line hline hshow
      obtain hline | hline := List.mem_append.mp hline
      · exact absurd hshow (hhead line hline)
      · exact List.mem_cons.mp hline
    refine ⟨?_, ?_, ?_⟩
    · intro line hline hshow
      obtain rfl | hline := hcases line hline hshow
      · exact Or.inl hfirst
      · exact Or.inr (hmsg line hline hshow).1
    · intro hall
      refine Or.inr (Or.inr ?_)
      by_contra hbreaks
      obtain ⟨line, hline, hshow⟩ := hshows.mpr (by simpa using hbreaks)
      have hmem : line ∈ head ++ first :: lines :=
        List.mem_append_right _ (List.mem_cons_of_mem _ hline)
      exact not_attributed (hmsg line hline hshow).2 (hall line hmem hshow)
    · intro hcond line hline hshow
      obtain rfl | hline := hcases line hline hshow
      · exact hfirst
      · have hbreaks := (hcond.resolve_left hblank).resolve_left (by simp)
        have hno := hshows.not.mpr (by simp [hbreaks])
        exact absurd ⟨line, hline, hshow⟩ hno

/-- "a", a line feed and a line that reads like one of the program. -/
def forgedText : Bytes :=
  ascii "a\n  [!] b"

/-- The second line of the message stands on the terminal without timestamp and label. -/
theorem incoming_forges_line :
    ∃ line ∈ terminalLines none
        (uiPrintIncoming {} true ⟨0, 0, 0⟩ forgedText).1,
      line.2 = theirs (ascii "  [!] b") ∧ ShowsMessage line.2 ∧
        ¬ Attributed {} ⟨0, 0, 0⟩ line.2 := by
  refine ⟨(some (.message, 0x0a), theirs (ascii "  [!] b")), by decide +kernel, rfl, ?_, ?_⟩
  · exact ⟨(.message, 0x20), by decide, rfl⟩
  · exact not_attributed (by decide)

end Attribution

end Ui
end Noxtor
