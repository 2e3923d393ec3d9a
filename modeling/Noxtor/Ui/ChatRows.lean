import Noxtor.Ui.Incoming

/-!
# Rows of the chat panel

`tui_append_line` puts a timestamp in front of a text and `tui_chat_append_colored` breaks the line
into rows of the panel's width and appends them to the scrollback.  Where the text begins is found
by looking for the last "] " of the whole line, so a text with "] " in it moves the indentation.

The interface's allocations succeed.
-/

namespace Noxtor
namespace Ui

open ByteString

/-- The fields of `struct tui_state` for the chat panel: its rows with their colours. -/
structure Chat where
  chatLines : List (Bytes × Nat) := []
  chatScrollOffset : Int := 0
  cols : Nat := 80
  active : Bool := true

/-- `TUI_CHAT_SCROLLBACK`. -/
def tuiChatScrollback : Nat := 512

/-- A row at the end of the scrollback; a full one loses its first row. -/
def pushRow (lines : List (Bytes × Nat)) (row : Bytes × Nat) : List (Bytes × Nat) :=
  (if lines.length ≥ tuiChatScrollback then lines.tail else lines) ++ [row]

/-- `strstr(s, "] ")`, as an offset. -/
def findBracket : Bytes → Option Nat
  | [] => none
  | c :: s => if c = 0x5d ∧ s.head? = some 0x20 then some 0 else (findBracket s).map (· + 1)

theorem findBracket_length
    {s : Bytes} {k : Nat} (h : findBracket s = some k) :
    k + 2 ≤ s.length := by
  induction s generalizing k with
  | nil =>
      cases h
  | cons c s ih =>
      rw [findBracket] at h
      split at h
      · rename_i hc
        obtain rfl := Option.some.inj h
        cases s with
        | nil => cases hc.2
        | cons d s => simp
      · obtain ⟨j, hj, rfl⟩ := Option.map_eq_some_iff.mp h
        have hlen := ih hj
        rw [List.length_cons]
        omega

/-- The search for the last "] ", from `s` at offset `off` on. -/
def lastBracket (s : Bytes) (off : Nat) (last : Option Nat) : Option Nat :=
  match _hfind : findBracket s with
  | none => last
  | some k => lastBracket (s.drop (k + 2)) (off + k + 2) (some (off + k))
termination_by s.length
decreasing_by
  have hlen := findBracket_length _hfind
  rw [List.length_drop]
  omega

def contentWidth (cols : Nat) : Nat :=
  max (cols - 22 - 2) 10

/-- The number of bytes in front of the text, and the text. -/
def splitLine (line : Bytes) : Nat × Bytes :=
  match lastBracket line 0 none with
  | some k => (k + 2, line.drop (k + 2))
  | none => (line.length, line)

def wrapWidth (cols prefixLen : Nat) : Nat :=
  if prefixLen ≥ contentWidth cols - 1 then prefixLen + 1 else contentWidth cols - 1

/-- The place behind the last blank or newline of the first `ws` bytes. -/
def lastBlank (p : Bytes) : Nat → Nat
  | 0 => 0
  | ws + 1 => if p.getD ws 0 = 0x20 ∨ p.getD ws 0 = 0x0a then ws + 1 else lastBlank p ws

/-- How much of `p` goes into the next row. -/
def rowTake (chunk : Nat) (p : Bytes) : Nat :=
  let take := if p.length > chunk then chunk else p.length
  if take < p.length ∧ 0 < lastBlank p take then lastBlank p take else take

/-- Where the text goes on: one blank behind the row is skipped. -/
def rowSkip (p : Bytes) (take : Nat) : Nat :=
  if take < p.length ∧ p.getD take 0 = 0x20 then take + 1 else take

theorem rowSkip_le
    {p : Bytes} {take : Nat} :
    take ≤ rowSkip p take := by
  unfold rowSkip
  split
  · exact Nat.le_succ take
  · exact Nat.le_refl take

/-- `sizeof(row) - 1`. -/
def rowCapacity : Nat := 1023

def wrapLoop (head indent : Bytes) (chunk fg : Nat) (first : Bool) (p : Bytes)
    (lines : List (Bytes × Nat)) : List (Bytes × Nat) :=
  if _hp : p = [] then lines
  else
    let take := rowTake chunk p
    if _htake : take = 0 then lines
    else
      let row := ((if first then head else indent) ++ p.take take).take rowCapacity
      let lines := if row = [] then lines else pushRow lines (row, fg)
      wrapLoop head indent chunk fg false (p.drop (rowSkip p take)) lines
termination_by p.length
decreasing_by
  have hskip : rowTake chunk p ≤ rowSkip p (rowTake chunk p) := rowSkip_le
  have hpos : 0 < p.length := List.length_pos_iff.mpr _hp
  rw [List.length_drop]
  omega

def tuiChatAppendColored (chat : Chat) (line : Bytes) (fg : Nat) : Chat :=
  if chat.active = false ∨ line = [] then chat
  else
    let (prefixLen, msg) := splitLine line
    let wrapWidth := wrapWidth chat.cols prefixLen
    if msg = [] ∨ prefixLen + msg.length ≤ wrapWidth then
      { chat with chatLines := pushRow chat.chatLines (line, fg) }
    else
      let indent := List.replicate (min prefixLen 63) 0x20
      let chunk := if wrapWidth > prefixLen then wrapWidth - prefixLen else 1
      { chat with
        chatLines := wrapLoop (line.take prefixLen) indent chunk fg true msg chat.chatLines
        chatScrollOffset := 0 }

/-- "[HH:MM:SS] ". -/
def timestamp (tm : Clock) : Bytes :=
  [0x5b] ++ twoDigits tm.hour ++ [0x3a] ++ twoDigits tm.min ++ [0x3a] ++ twoDigits tm.sec ++
    [0x5d, 0x20]

/-- `tui_append_line`: the line is cut to its buffer of 8192 bytes. -/
def tuiAppendLine (chat : Chat) (tag text : Bytes) (tm : Clock) : Chat :=
  tuiChatAppendColored chat ((timestamp tm ++ tag ++ text).take 8191) 0

section Rows

/-- The pieces of a text, each with the blank that is dropped behind it. -/
def wrapPieces (chunk : Nat) (p : Bytes) : List (Bytes × Bytes) :=
  if _hp : p = [] then []
  else
    let take := rowTake chunk p
    if _htake : take = 0 then []
    else
      (p.take take, (p.drop take).take (rowSkip p take - take)) ::
        wrapPieces chunk (p.drop (rowSkip p take))
termination_by p.length
decreasing_by
  have hskip : rowTake chunk p ≤ rowSkip p (rowTake chunk p) := rowSkip_le
  have hpos : 0 < p.length := List.length_pos_iff.mpr _hp
  rw [List.length_drop]
  omega

/-- The rows of these pieces behind `head` and, from the second row on, behind `indent`. -/
def pieceRows (head indent : Bytes) : List (Bytes × Bytes) → List Bytes
  | [] => []
  | piece :: more =>
      (head ++ piece.1).take rowCapacity :: more.map fun q => (indent ++ q.1).take rowCapacity

/-- The rows that a line gives. -/
def chatRows (cols : Nat) (line : Bytes) : List Bytes :=
  let (prefixLen, msg) := splitLine line
  let wrapWidth := wrapWidth cols prefixLen
  if msg = [] ∨ prefixLen + msg.length ≤ wrapWidth then [line]
  else
    let indent := List.replicate (min prefixLen 63) 0x20
    let chunk := if wrapWidth > prefixLen then wrapWidth - prefixLen else 1
    pieceRows (line.take prefixLen) indent (wrapPieces chunk msg)

variable {chunk : Nat} {p : Bytes}

theorem lastBlank_le
    (p : Bytes) (ws : Nat) :
    lastBlank p ws ≤ ws := by
  induction ws with
  | zero =>
      exact Nat.le_refl 0
  | succ ws ih =>
      rw [lastBlank]
      split
      · exact Nat.le_refl _
      · exact Nat.le_succ_of_le ih

theorem rowTake_le
    (chunk : Nat) (p : Bytes) :
    rowTake chunk p ≤ chunk ∧ rowTake chunk p ≤ p.length := by
  unfold rowTake
  dsimp only
  have hblank := lastBlank_le p (if p.length > chunk then chunk else p.length)
  split_ifs at hblank ⊢ <;> omega

theorem rowTake_pos
    (hchunk : 0 < chunk) (hp : p ≠ []) :
    0 < rowTake chunk p := by
  have hlen : 0 < p.length := List.length_pos_iff.mpr hp
  unfold rowTake
  dsimp only
  split_ifs <;> omega

theorem wrapPieces_step
    (hchunk : 0 < chunk) (hp : p ≠ []) :
    wrapPieces chunk p =
      (p.take (rowTake chunk p),
        (p.drop (rowTake chunk p)).take (rowSkip p (rowTake chunk p) - rowTake chunk p)) ::
        wrapPieces chunk (p.drop (rowSkip p (rowTake chunk p))) := by
  have hpos := rowTake_pos hchunk hp
  rw [wrapPieces, dif_neg hp]
  dsimp only
  rw [dif_neg (Nat.ne_of_gt hpos)]

/-- A row, what is dropped behind it, and the rest. -/
theorem wrapPieces_cons
    (hchunk : 0 < chunk) (hp : p ≠ []) :
    ∃ piece gap rest, p = piece ++ (gap ++ rest) ∧ piece ≠ [] ∧ piece.length ≤ chunk ∧
      (gap = [] ∨ gap = [0x20]) ∧ rest.length < p.length ∧
      wrapPieces chunk p = (piece, gap) :: wrapPieces chunk rest := by
  have hpos := rowTake_pos hchunk hp
  obtain ⟨hle, hlen⟩ := rowTake_le chunk p
  have hskip : rowTake chunk p ≤ rowSkip p (rowTake chunk p) := rowSkip_le
  refine ⟨p.take (rowTake chunk p),
    (p.drop (rowTake chunk p)).take (rowSkip p (rowTake chunk p) - rowTake chunk p),
    p.drop (rowSkip p (rowTake chunk p)), ?_, ?_, ?_, ?_, ?_, ?_⟩
  · have hrest : p.drop (rowSkip p (rowTake chunk p)) = (p.drop (rowTake chunk p)).drop
        (rowSkip p (rowTake chunk p) - rowTake chunk p) := by
      rw [List.drop_drop, Nat.add_sub_cancel' hskip]
    rw [hrest, List.take_append_drop, List.take_append_drop]
  · intro hnil
    have hzero := congrArg List.length hnil
    rw [List.length_take_of_le hlen, List.length_nil] at hzero
    omega
  · rw [List.length_take_of_le hlen]
    exact hle
  · unfold rowSkip
    split
    · rename_i hblank
      right
      rw [Nat.add_sub_cancel_left, List.take_one, List.head?_drop,
        List.getElem?_eq_getElem hblank.1]
      rw [List.getD_eq_getElem _ _ hblank.1] at hblank
      rw [hblank.2]
      rfl
    · left
      rw [Nat.sub_self, List.take_zero]
  · have hlenp : 0 < p.length := List.length_pos_iff.mpr hp
    rw [List.length_drop]
    omega
  · exact wrapPieces_step hchunk hp

theorem wrapPieces_nil : wrapPieces chunk [] = [] := by
  rw [wrapPieces, dif_pos rfl]

/-- One round of the loop. -/
theorem wrapLoop_cons
    (hchunk : 0 < chunk) (hp : p ≠ []) (head indent : Bytes) (fg : Nat) (first : Bool)
    (hfirst : (if first then head else indent) ≠ []) (lines : List (Bytes × Nat)) :
    wrapLoop head indent chunk fg first p lines =
      wrapLoop head indent chunk fg false (p.drop (rowSkip p (rowTake chunk p)))
        (pushRow lines (((if first then head else indent) ++
          p.take (rowTake chunk p)).take rowCapacity, fg)) := by
  have hpos := rowTake_pos hchunk hp
  have hrow : ((if first then head else indent) ++
      p.take (rowTake chunk p)).take rowCapacity ≠ [] := by
    rw [ne_eq, List.take_eq_nil_iff, List.append_eq_nil_iff, not_or, not_and]
    exact ⟨by decide, fun hnil => absurd hnil hfirst⟩
  rw [wrapLoop, dif_neg hp]
  dsimp only
  rw [dif_neg (Nat.ne_of_gt hpos), if_neg hrow]

theorem wrapLoop_later
    (hchunk : 0 < chunk) (head indent : Bytes) (fg : Nat) (hindent : indent ≠ []) (p : Bytes)
    (lines : List (Bytes × Nat)) :
    wrapLoop head indent chunk fg false p lines =
      (((wrapPieces chunk p).map fun q => (indent ++ q.1).take rowCapacity).map (·, fg)).foldl
        pushRow lines := by
  induction hn : p.length using Nat.strong_induction_on generalizing p lines with
  | _ n ih =>
      by_cases hp : p = []
      · subst hp
        rw [wrapLoop, dif_pos rfl, wrapPieces_nil]
        rfl
      · have hpos := rowTake_pos hchunk hp
        have hskip : rowTake chunk p ≤ rowSkip p (rowTake chunk p) := rowSkip_le
        have hlen : 0 < p.length := List.length_pos_iff.mpr hp
        have hless : (p.drop (rowSkip p (rowTake chunk p))).length < n := by
          rw [List.length_drop]
          omega
        rw [wrapLoop_cons hchunk hp head indent fg false hindent, ih _ hless _ _ rfl,
          wrapPieces_step hchunk hp]
        rfl

/-- The loop appends the rows of the pieces. -/
theorem wrapLoop_eq
    (hchunk : 0 < chunk) (head indent : Bytes) (fg : Nat) (hhead : head ≠ [])
    (hindent : indent ≠ []) (p : Bytes) (lines : List (Bytes × Nat)) :
    wrapLoop head indent chunk fg true p lines =
      ((pieceRows head indent (wrapPieces chunk p)).map (·, fg)).foldl pushRow lines := by
  by_cases hp : p = []
  · subst hp
    rw [wrapLoop, dif_pos rfl, wrapPieces_nil]
    rfl
  · rw [wrapLoop_cons hchunk hp head indent fg true hhead, wrapLoop_later hchunk _ _ _ hindent,
      wrapPieces_step hchunk hp]
    rfl

/-- The last rows of a list, as many as the scrollback holds. -/
def lastRows (lines : List (Bytes × Nat)) : List (Bytes × Nat) :=
  lines.drop (lines.length - tuiChatScrollback)

/-- Only the oldest rows leave the scrollback. -/
theorem foldl_pushRow
    (rows lines : List (Bytes × Nat)) (hlen : lines.length ≤ tuiChatScrollback) :
    rows.foldl pushRow lines = lastRows (lines ++ rows) := by
  unfold lastRows
  induction rows generalizing lines with
  | nil =>
      rw [List.foldl_nil, List.append_nil, Nat.sub_eq_zero_of_le hlen, List.drop_zero]
  | cons row rows ih =>
      rw [List.foldl_cons]
      by_cases hfull : lines.length ≥ tuiChatScrollback
      · have hpush : pushRow lines row = lines.tail ++ [row] := by
          unfold pushRow
          rw [if_pos hfull]
        have hpos : 0 < lines.length := Nat.lt_of_lt_of_le (by decide) hfull
        have htail : (pushRow lines row).length ≤ tuiChatScrollback := by
          rw [hpush, List.length_append, List.length_tail, List.length_singleton]
          omega
        rw [ih _ htail, hpush, List.append_assoc, List.singleton_append]
        have hdrop : lines.tail ++ row :: rows = (lines ++ row :: rows).drop 1 := by
          cases lines with
          | nil => exact absurd hpos (Nat.lt_irrefl 0)
          | cons first lines => rfl
        have hcount : 1 + ((lines ++ row :: rows).length - 1 - tuiChatScrollback) =
            (lines ++ row :: rows).length - tuiChatScrollback := by
          rw [List.length_append, List.length_cons]
          omega
        rw [hdrop, List.drop_drop, List.length_drop, hcount]
      · have hpush : pushRow lines row = lines ++ [row] := by
          unfold pushRow
          rw [if_neg hfull]
        have hroom : (pushRow lines row).length ≤ tuiChatScrollback := by
          rw [hpush, List.length_append, List.length_singleton]
          omega
        rw [ih _ hroom, hpush, List.append_assoc, List.singleton_append]

theorem twoDigits_no_bracket
    {n : Nat} (h : n < 61) :
    ∀ c ∈ twoDigits n, c ≠ 0x5d := by
  have hall : ∀ n < 61, (twoDigits n).all (fun c => decide (c ≠ 0x5d)) = true := by
    decide +kernel
  exact fun c hc => of_decide_eq_true (List.all_eq_true.mp (hall n h) c hc)

/-- The timestamp is nine bytes without a closing bracket, the bracket and a blank. -/
theorem timestamp_eq
    (tm : Clock) :
    ∃ front, timestamp tm = front ++ [0x5d, 0x20] ∧ front.length = 9 ∧ ∀ c ∈ front, c ≠ 0x5d := by
  refine ⟨_, rfl, rfl, ?_⟩
  have hhour := twoDigits_no_bracket (n := tm.hour) (by omega)
  have hmin := twoDigits_no_bracket (n := tm.min) (by omega)
  have hsec := twoDigits_no_bracket tm.sec.isLt
  simp only [List.forall_mem_append]
  exact ⟨⟨⟨⟨⟨by simp, hhour⟩, by simp⟩, hmin⟩, by simp⟩, hsec⟩

theorem timestamp_length
    (tm : Clock) :
    (timestamp tm).length = 11 := by
  obtain ⟨front, heq, hlen, -⟩ := timestamp_eq tm
  rw [heq, List.length_append, hlen]
  rfl

theorem findBracket_append
    {front : Bytes} (h : ∀ c ∈ front, c ≠ 0x5d) (s : Bytes) :
    findBracket (front ++ s) = (findBracket s).map (· + front.length) := by
  induction front with
  | nil =>
      cases hs : findBracket s with
      | none => rw [List.nil_append, hs]; rfl
      | some k => rw [List.nil_append, hs]; rfl
  | cons c front ih =>
      obtain ⟨hc, hfront⟩ := List.forall_mem_cons.mp h
      rw [List.cons_append, findBracket, if_neg (fun hand => hc hand.1), ih hfront]
      cases findBracket s with
      | none => rfl
      | some k => rfl

theorem lastBracket_none
    {s : Bytes} (h : findBracket s = none) (off : Nat) (last : Option Nat) :
    lastBracket s off last = last := by
  rw [lastBracket]
  split
  · rfl
  · rename_i k hk
    rw [h] at hk
    cases hk

theorem lastBracket_some
    {s : Bytes} {k : Nat} (h : findBracket s = some k) (off : Nat) (last : Option Nat) :
    lastBracket s off last = lastBracket (s.drop (k + 2)) (off + k + 2) (some (off + k)) := by
  rw [lastBracket]
  split
  · rename_i hnone
    rw [h] at hnone
    cases hnone
  · rename_i j hj
    obtain rfl : j = k := Option.some.inj (hj.symm.trans h)
    rfl

/-- The search goes forward and stays in the line. -/
theorem lastBracket_bounds
    (s : Bytes) (off start : Nat) (hstart : start + 2 ≤ off) :
    ∃ k, lastBracket s off (some start) = some k ∧ start ≤ k ∧ k + 2 ≤ off + s.length := by
  induction hn : s.length using Nat.strong_induction_on generalizing s off start with
  | _ n ih =>
      cases hfind : findBracket s with
      | none =>
          exact ⟨start, lastBracket_none hfind _ _, Nat.le_refl _, by omega⟩
      | some k =>
          have hlen := findBracket_length hfind
          obtain ⟨j, hj, hle, hbound⟩ := ih _ (by rw [List.length_drop]; omega)
            (s.drop (k + 2)) (off + k + 2) (off + k) (Nat.le_refl _) rfl
          rw [List.length_drop] at hbound
          exact ⟨j, (lastBracket_some hfind _ _).trans hj, by omega, by omega⟩

variable (tm : Clock) (rest : Bytes)

theorem lastBracket_line :
    lastBracket (timestamp tm ++ rest) 0 none = lastBracket rest 11 (some 9) := by
  obtain ⟨front, heq, hlen, hfront⟩ := timestamp_eq tm
  have hfind : findBracket (timestamp tm ++ rest) = some 9 := by
    rw [heq, List.append_assoc, findBracket_append hfront, hlen]
    rfl
  rw [lastBracket_some hfind, List.drop_left' (timestamp_length tm)]

/-- A text without "] " begins behind the timestamp. -/
theorem splitLine_plain
    (h : findBracket rest = none) :
    splitLine (timestamp tm ++ rest) = (11, rest) := by
  unfold splitLine
  rw [lastBracket_line, lastBracket_none h]
  dsimp only
  rw [List.drop_left' (timestamp_length tm)]

/-- Otherwise it begins further to the right. -/
theorem splitLine_bracket
    (h : findBracket rest ≠ none) :
    ∃ n, 2 ≤ n ∧ n ≤ rest.length ∧
      splitLine (timestamp tm ++ rest) = (11 + n, rest.drop n) := by
  obtain ⟨k, hk⟩ := Option.ne_none_iff_exists'.mp h
  have hlen := findBracket_length hk
  obtain ⟨j, hj, hle, hbound⟩ := lastBracket_bounds (rest.drop (k + 2)) (11 + k + 2) (11 + k)
    (Nat.le_refl _)
  rw [List.length_drop] at hbound
  refine ⟨j - 9, by omega, by omega, ?_⟩
  unfold splitLine
  rw [lastBracket_line, lastBracket_some hk, hj]
  dsimp only
  have hsplit : j + 2 = (timestamp tm).length + (j - 9) := by
    rw [timestamp_length]
    omega
  rw [hsplit, List.drop_length_add_append, timestamp_length]

end Rows

section Faithful

/-- The pieces make up the text, up to one blank behind each of them. -/
inductive Rejoins : List Bytes → Bytes → Prop
  | nil : Rejoins [] []
  | cons {piece gap rest : Bytes} {more : List Bytes} :
      gap = [] ∨ gap = [0x20] →
      Rejoins more rest →
      Rejoins (piece :: more) (piece ++ (gap ++ rest))

/-- The bound on a row. -/
def panelWidth (cols : Nat) : Nat :=
  max (contentWidth cols - 1) 12

/--
The rows show the text: the timestamp in front of the first, eleven blanks in front of the others,
none wider than `width`, and nothing lost or invented.
-/
structure Faithful (width : Nat) (stamp rest : Bytes) (rows : List Bytes) : Prop where
  shape : ∃ first later, rows = first :: later ∧ stamp <+: first ∧
    ∀ row ∈ later, List.replicate 11 0x20 <+: row
  bounded : ∀ row ∈ rows, row.length ≤ width
  rejoins : Rejoins (rows.map (·.drop 11)) rest

/-- The line fits into one row; or the text has no "] " and no row overruns the row buffer. -/
def WrapsPlainly (cols : Nat) (rest : Bytes) : Prop :=
  11 + rest.length ≤ panelWidth cols ∨
    (findBracket rest = none ∧
      ∀ piece ∈ wrapPieces (panelWidth cols - 11) rest, 11 + piece.1.length ≤ rowCapacity)

variable {chunk : Nat}

theorem wrapPieces_rejoins
    (hchunk : 0 < chunk) (p : Bytes) :
    Rejoins ((wrapPieces chunk p).map (·.1)) p := by
  induction hn : p.length using Nat.strong_induction_on generalizing p with
  | _ n ih =>
      by_cases hp : p = []
      · rw [hp, wrapPieces_nil]
        exact .nil
      · obtain ⟨piece, gap, rest, heq, -, -, hgap, hlen, hpieces⟩ := wrapPieces_cons hchunk hp
        rw [hpieces, heq]
        exact .cons hgap (ih rest.length (by omega) rest rfl)

theorem wrapPieces_short
    (hchunk : 0 < chunk) (p : Bytes) :
    ∀ piece ∈ wrapPieces chunk p, piece.1.length ≤ chunk := by
  induction hn : p.length using Nat.strong_induction_on generalizing p with
  | _ n ih =>
      by_cases hp : p = []
      · rw [hp, wrapPieces_nil]
        simp
      · obtain ⟨piece, gap, rest, -, -, hshort, -, hlen, hpieces⟩ := wrapPieces_cons hchunk hp
        rw [hpieces]
        exact List.forall_mem_cons.mpr ⟨hshort, ih rest.length (by omega) rest rfl⟩

variable (tm : Clock) (cols : Nat) {rest : Bytes}

/-- A line that fits is one row. -/
theorem chatRows_single
    (h : 11 + rest.length ≤ panelWidth cols) :
    chatRows cols (timestamp tm ++ rest) = [timestamp tm ++ rest] := by
  have hone : ∀ n, n ≤ rest.length → rest.drop n = [] ∨
      11 + n + (rest.drop n).length ≤ wrapWidth cols (11 + n) := by
    intro n hn
    by_cases hnil : rest.drop n = []
    · exact Or.inl hnil
    · right
      have hlt : n < rest.length := by
        rw [List.drop_eq_nil_iff] at hnil
        omega
      unfold panelWidth at h
      unfold wrapWidth
      rw [List.length_drop]
      split_ifs <;> omega
  unfold chatRows
  by_cases hplain : findBracket rest = none
  · rw [splitLine_plain tm rest hplain]
    dsimp only
    rw [if_pos (by simpa using hone 0 (Nat.zero_le _))]
  · obtain ⟨n, -, hn, hsplit⟩ := splitLine_bracket tm rest hplain
    rw [hsplit]
    dsimp only
    rw [if_pos (hone n hn)]

theorem faithful_single
    (h : 11 + rest.length ≤ panelWidth cols) :
    Faithful (panelWidth cols) (timestamp tm) rest (chatRows cols (timestamp tm ++ rest)) := by
  rw [chatRows_single tm cols h]
  refine ⟨⟨_, [], rfl, List.prefix_append _ _, by simp⟩, ?_, ?_⟩
  · intro row hrow
    obtain rfl := List.mem_singleton.mp hrow
    rw [List.length_append, timestamp_length]
    exact h
  · rw [List.map_singleton, List.drop_left' (timestamp_length tm)]
    have hrejoin : Rejoins [rest] (rest ++ ([] ++ [])) := .cons (Or.inl rfl) .nil
    simpa using hrejoin

/-- A text without "] " is broken behind the timestamp. -/
theorem chatRows_plain
    (hplain : findBracket rest = none) (hlong : ¬ 11 + rest.length ≤ panelWidth cols) :
    chatRows cols (timestamp tm ++ rest) = pieceRows (timestamp tm) (List.replicate 11 0x20)
      (wrapPieces (panelWidth cols - 11) rest) := by
  have hwidth : wrapWidth cols 11 = panelWidth cols := by
    unfold wrapWidth panelWidth
    split_ifs <;> omega
  have hpanel : 12 ≤ panelWidth cols := Nat.le_max_right _ _
  have hrest : rest ≠ [] := by
    rintro rfl
    rw [List.length_nil] at hlong
    omega
  unfold chatRows
  rw [splitLine_plain tm rest hplain]
  dsimp only
  rw [hwidth, if_neg (not_or.mpr ⟨hrest, hlong⟩), if_pos (by omega),
    List.take_left' (timestamp_length tm)]
  rfl

theorem faithful_plain
    (hplain : findBracket rest = none) (hlong : ¬ 11 + rest.length ≤ panelWidth cols)
    (hrows : ∀ piece ∈ wrapPieces (panelWidth cols - 11) rest,
      11 + piece.1.length ≤ rowCapacity) :
    Faithful (panelWidth cols) (timestamp tm) rest (chatRows cols (timestamp tm ++ rest)) := by
  have hpanel : 12 ≤ panelWidth cols := Nat.le_max_right _ _
  have hchunk : 0 < panelWidth cols - 11 := by omega
  have hrest : rest ≠ [] := by
    rintro rfl
    rw [List.length_nil] at hlong
    omega
  have hshort := wrapPieces_short hchunk rest
  have hrejoins := wrapPieces_rejoins hchunk rest
  have hstamp := timestamp_length tm
  have hblanks : (List.replicate 11 (0x20 : UInt8)).length = 11 := List.length_replicate
  rw [chatRows_plain tm cols hplain hlong]
  obtain ⟨piece, gap, tail, -, -, -, -, -, hpieces⟩ := wrapPieces_cons hchunk hrest
  rw [hpieces] at hrows hshort hrejoins ⊢
  obtain ⟨hrow, hrows⟩ := List.forall_mem_cons.mp hrows
  obtain ⟨hpiece, hshort⟩ := List.forall_mem_cons.mp hshort
  -- no row is cut by its buffer
  have hfirst : (timestamp tm ++ piece).take rowCapacity = timestamp tm ++ piece := by
    refine List.take_of_length_le ?_
    rw [List.length_append, hstamp]
    exact hrow
  have hlater : ∀ q ∈ wrapPieces (panelWidth cols - 11) tail,
      (List.replicate 11 0x20 ++ q.1).take rowCapacity = List.replicate 11 0x20 ++ q.1 := by
    intro q hq
    refine List.take_of_length_le ?_
    rw [List.length_append, hblanks]
    exact hrows q hq
  dsimp only [pieceRows]
  rw [hfirst, List.map_congr_left hlater]
  refine ⟨⟨_, _, rfl, List.prefix_append _ _, ?_⟩, ?_, ?_⟩
  · intro row hmem
    obtain ⟨q, -, rfl⟩ := List.mem_map.mp hmem
    exact List.prefix_append _ _
  · refine List.forall_mem_cons.mpr ⟨?_, ?_⟩
    · dsimp only at hpiece
      rw [List.length_append, hstamp]
      omega
    · intro row hmem
      obtain ⟨q, hq, rfl⟩ := List.mem_map.mp hmem
      have hlen := hshort q hq
      rw [List.length_append, hblanks]
      omega
  · rw [List.map_cons, List.drop_left' hstamp, List.map_map]
    have hdrop : ((fun row : Bytes => row.drop 11) ∘ fun q : Bytes × Bytes =>
        List.replicate 11 0x20 ++ q.1) = fun q => q.1 := by
      funext q
      exact List.drop_left' hblanks
    rw [hdrop]
    exact hrejoins

/-- The rows are not longer than the text. -/
theorem Rejoins.length_le
    {pieces : List Bytes} {text : Bytes} (h : Rejoins pieces text) :
    (pieces.map List.length).sum ≤ text.length := by
  induction h with
  | nil =>
      exact Nat.le_refl 0
  | cons hgap hmore ih =>
      rw [List.map_cons, List.sum_cons, List.length_append, List.length_append]
      omega

/-- A text that does not end in a blank loses fewer bytes than it has pieces. -/
theorem wrapPieces_count
    (hchunk : 0 < chunk) {p : Bytes} (hp : p ≠ []) (hlast : p.getLast? ≠ some 0x20) :
    p.length + 1 ≤ ((wrapPieces chunk p).map (·.1.length)).sum + (wrapPieces chunk p).length := by
  induction hn : p.length using Nat.strong_induction_on generalizing p with
  | _ n ih =>
      obtain ⟨piece, gap, rest, heq, -, -, hgap, hlen, hpieces⟩ := wrapPieces_cons hchunk hp
      rw [hpieces, List.map_cons, List.sum_cons, List.length_cons]
      dsimp only
      have hp' := congrArg List.length heq
      rw [List.length_append, List.length_append] at hp'
      by_cases hrest : rest = []
      · have hnogap : gap = [] := by
          refine hgap.resolve_right ?_
          rintro rfl
          rw [heq, hrest, List.append_nil, List.getLast?_concat] at hlast
          exact hlast rfl
        rw [hrest, wrapPieces_nil]
        rw [hrest, hnogap, List.length_nil] at hp'
        simp only [List.map_nil, List.sum_nil, List.length_nil]
        omega
      · have hlast' : rest.getLast? ≠ some 0x20 := by
          rwa [heq, ← List.append_assoc, List.getLast?_append_of_ne_nil _ hrest] at hlast
        have hmore := ih rest.length (by omega) hrest hlast' rfl
        have hone : gap.length ≤ 1 := by
          obtain rfl | rfl := hgap
          · exact Nat.zero_le 1
          · exact Nat.le_refl 1
        omega

/-- An indentation of thirteen blanks or more adds two bytes to every later row. -/
theorem indent_adds
    {indent : Bytes} (hindent : 13 ≤ indent.length) (pieces : List (Bytes × Bytes))
    (hrows : ∀ q ∈ pieces, indent.length + q.1.length ≤ rowCapacity) :
    (pieces.map (·.1.length)).sum + 2 * pieces.length ≤
      (pieces.map fun q => (((indent ++ q.1).take rowCapacity).drop 11).length).sum := by
  induction pieces with
  | nil =>
      exact Nat.le_refl 0
  | cons q pieces ih =>
      obtain ⟨hq, hrows⟩ := List.forall_mem_cons.mp hrows
      have hmore := ih hrows
      have hrow : (((indent ++ q.1).take rowCapacity).drop 11).length =
          indent.length + q.1.length - 11 := by
        rw [List.length_drop, List.length_take, List.length_append, Nat.min_eq_right hq]
      rw [List.map_cons, List.map_cons, List.sum_cons, List.sum_cons, List.length_cons, hrow]
      omega

/-- With an indentation inside the panel the later rows hold too much. -/
theorem not_rejoins_indented
    {n : Nat} (hn : 2 ≤ n) (hnr : n ≤ rest.length) (hchunk : 0 < chunk)
    (hwidth : 11 + n + chunk ≤ rowCapacity) (hlong : chunk < rest.length - n)
    (hlast : rest.getLast? ≠ some 0x20) :
    ¬ Rejoins ((pieceRows ((timestamp tm ++ rest).take (11 + n))
      (List.replicate (min (11 + n) 63) 0x20) (wrapPieces chunk (rest.drop n))).map (·.drop 11))
      rest := by
  intro hrejoins
  have hmsg : rest.drop n ≠ [] := by
    rw [ne_eq, List.drop_eq_nil_iff]
    omega
  have hmsglast : (rest.drop n).getLast? ≠ some 0x20 := by
    rwa [List.getLast?_drop, if_neg (by omega)]
  have hcount := wrapPieces_count hchunk hmsg hmsglast
  have hshort := wrapPieces_short hchunk (rest.drop n)
  have hhead : ((timestamp tm ++ rest).take (11 + n)).length = 11 + n := by
    rw [List.length_take, List.length_append, timestamp_length]
    omega
  have hindent : 13 ≤ (List.replicate (min (11 + n) 63) (0x20 : UInt8)).length := by
    rw [List.length_replicate]
    omega
  have hindent' : (List.replicate (min (11 + n) 63) (0x20 : UInt8)).length ≤ 11 + n := by
    rw [List.length_replicate]
    omega
  generalize List.replicate (min (11 + n) 63) (0x20 : UInt8) = indent at *
  generalize (timestamp tm ++ rest).take (11 + n) = head at *
  obtain ⟨piece, gap, tail, -, -, hpiece, -, -, hpieces⟩ := wrapPieces_cons hchunk hmsg
  rw [hpieces] at hcount hshort hrejoins
  have hadds := indent_adds hindent (wrapPieces chunk tail) fun q hq => by
    have hq' := hshort q (List.mem_cons_of_mem _ hq)
    omega
  have hfirst : (((head ++ piece).take rowCapacity).drop 11).length =
      n + piece.length := by
    rw [List.length_drop, List.length_take, List.length_append, hhead, Nat.min_eq_right (by omega)]
    omega
  have hlen := hrejoins.length_le
  simp only [pieceRows, List.map_cons, List.map_map, List.sum_cons, hfirst] at hlen
  simp only [List.map_cons, List.sum_cons, List.length_cons, List.length_drop] at hcount
  have hsame : (List.length ∘ (fun row : Bytes => row.drop 11) ∘ fun q : Bytes × Bytes =>
      (indent ++ q.1).take rowCapacity) =
      fun q => (((indent ++ q.1).take rowCapacity).drop 11).length := rfl
  rw [hsame] at hlen
  -- so there is no later row, and the first one cannot hold the text
  have hnil : wrapPieces chunk tail = [] := by
    rw [← List.length_eq_zero_iff]
    omega
  rw [hnil, List.map_nil, List.sum_nil, List.length_nil] at hcount
  omega

/-- A text with "] " that does not fit into one row is not shown faithfully. -/
theorem not_faithful_bracket
    (hbracket : findBracket rest ≠ none) (hlong : ¬ 11 + rest.length ≤ panelWidth cols)
    (hwidth : panelWidth cols < rowCapacity) (hlast : rest.getLast? ≠ some 0x20) :
    ¬ Faithful (panelWidth cols) (timestamp tm) rest (chatRows cols (timestamp tm ++ rest)) := by
  intro hfaithful
  obtain ⟨n, hn, hnr, hsplit⟩ := splitLine_bracket tm rest hbracket
  have hbounded := hfaithful.bounded
  have hrejoins := hfaithful.rejoins
  unfold chatRows at hbounded hrejoins
  rw [hsplit] at hbounded hrejoins
  dsimp only at hbounded hrejoins
  split at hbounded
  · -- one row that is too wide
    have hline := hbounded _ (List.mem_singleton_self _)
    rw [List.length_append, timestamp_length] at hline
    exact hlong hline
  · rename_i hmany
    obtain ⟨hmsg, htoo⟩ := not_or.mp hmany
    rw [if_neg hmany] at hrejoins
    rw [List.length_drop] at htoo
    unfold wrapWidth at htoo hrejoins hbounded
    by_cases hfull : 11 + n ≥ contentWidth cols - 1
    · -- the text begins at the border: every row is too wide
      rw [if_pos hfull] at hbounded
      have hchunk : 0 < (if 11 + n + 1 > 11 + n then 11 + n + 1 - (11 + n) else 1) := by
        split <;> omega
      obtain ⟨piece, gap, tail, -, hne, -, -, -, hpieces⟩ := wrapPieces_cons hchunk hmsg
      rw [hpieces] at hbounded
      have hpos : 0 < piece.length := List.length_pos_iff.mpr hne
      have hrow := hbounded _ List.mem_cons_self
      rw [List.length_take, List.length_append, List.length_take, List.length_append,
        timestamp_length] at hrow
      dsimp only at hrow
      unfold panelWidth at hrow hwidth
      omega
    · rw [if_neg hfull] at htoo hrejoins
      have hpanel : panelWidth cols = contentWidth cols - 1 := by
        unfold panelWidth
        omega
      rw [if_pos (by omega)] at hrejoins
      exact not_rejoins_indented tm hn hnr (by omega) (by omega) (by omega) hlast hrejoins

theorem wrapsPlainly_iff
    (hwidth : panelWidth cols < rowCapacity) :
    WrapsPlainly cols rest ↔ 11 + rest.length ≤ panelWidth cols ∨ findBracket rest = none := by
  have hpanel : 12 ≤ panelWidth cols := Nat.le_max_right _ _
  have hshort := wrapPieces_short (p := rest) (show 0 < panelWidth cols - 11 by omega)
  constructor
  · exact Or.imp_right And.left
  · refine Or.imp_right fun hplain => ⟨hplain, fun piece hpiece => ?_⟩
    have hlen := hshort piece hpiece
    omega

end Faithful

section Append

/-- What a line holds behind its timestamp. -/
def lineText (tag text : Bytes) : Bytes :=
  (tag ++ text).take 8180

theorem line_eq
    (tag text : Bytes) (tm : Clock) :
    (timestamp tm ++ tag ++ text).take 8191 = timestamp tm ++ lineText tag text := by
  rw [List.append_assoc, List.take_append, timestamp_length,
    List.take_of_length_le (by rw [timestamp_length]; decide)]
  rfl

/-- The rows of a line go to the end of the scrollback one by one. -/
theorem tuiChatAppendColored_lines
    {chat : Chat} (hactive : chat.active = true) (tm : Clock) (rest : Bytes) (fg : Nat) :
    (tuiChatAppendColored chat (timestamp tm ++ rest) fg).chatLines =
      ((chatRows chat.cols (timestamp tm ++ rest)).map (·, fg)).foldl pushRow chat.chatLines := by
  have hstamp := timestamp_length tm
  have hline : timestamp tm ++ rest ≠ [] := by
    intro hnil
    have hlen := congrArg List.length hnil
    rw [List.length_append, hstamp, List.length_nil] at hlen
    omega
  obtain ⟨n, msg, hsplit⟩ : ∃ n msg, splitLine (timestamp tm ++ rest) = (11 + n, msg) := by
    by_cases hplain : findBracket rest = none
    · exact ⟨0, rest, splitLine_plain tm rest hplain⟩
    · obtain ⟨n, -, -, hsplit⟩ := splitLine_bracket tm rest hplain
      exact ⟨n, _, hsplit⟩
  unfold tuiChatAppendColored chatRows
  rw [if_neg (not_or.mpr ⟨by simp [hactive], hline⟩), hsplit]
  dsimp only
  split
  · rfl
  · have hhead : (timestamp tm ++ rest).take (11 + n) ≠ [] := by
      rw [ne_eq, List.take_eq_nil_iff, not_or]
      exact ⟨by omega, hline⟩
    have hindent : List.replicate (min (11 + n) 63) (0x20 : UInt8) ≠ [] := by
      rw [ne_eq, List.replicate_eq_nil_iff]
      omega
    have hchunk : 0 < (if wrapWidth chat.cols (11 + n) > 11 + n then
        wrapWidth chat.cols (11 + n) - (11 + n) else 1) := by
      split <;> omega
    exact wrapLoop_eq hchunk _ _ fg hhead hindent msg chat.chatLines

/--
`tui_append_line` appends the rows of the line to the scrollback, of which only the oldest rows go
and which stays within its limit.  The rows are faithful to the text if it fits into one row, or if
it has no "] " and none of its rows overruns the row buffer.  For a panel narrower than that buffer
and a text that does not end in a blank they are faithful in no other case.
-/
theorem tui_append_line_faithful
    (chat : Chat) (hactive : chat.active = true)
    (hlen : chat.chatLines.length ≤ tuiChatScrollback) (tag text : Bytes) (tm : Clock) :
    (tuiAppendLine chat tag text tm).chatLines = lastRows (chat.chatLines ++
        (chatRows chat.cols (timestamp tm ++ lineText tag text)).map (·, 0)) ∧
      (tuiAppendLine chat tag text tm).chatLines.length ≤ tuiChatScrollback ∧
      (WrapsPlainly chat.cols (lineText tag text) →
        Faithful (panelWidth chat.cols) (timestamp tm) (lineText tag text)
          (chatRows chat.cols (timestamp tm ++ lineText tag text))) ∧
      (panelWidth chat.cols < rowCapacity → (lineText tag text).getLast? ≠ some 0x20 →
        Faithful (panelWidth chat.cols) (timestamp tm) (lineText tag text)
          (chatRows chat.cols (timestamp tm ++ lineText tag text)) →
        WrapsPlainly chat.cols (lineText tag text)) := by
  have hlines : (tuiAppendLine chat tag text tm).chatLines = lastRows (chat.chatLines ++
      (chatRows chat.cols (timestamp tm ++ lineText tag text)).map (·, 0)) := by
    unfold tuiAppendLine
    rw [line_eq, tuiChatAppendColored_lines hactive, foldl_pushRow _ _ hlen]
  refine ⟨hlines, ?_, ?_, ?_⟩
  · rw [hlines, lastRows, List.length_drop]
    omega
  · intro hcond
    by_cases hfits : 11 + (lineText tag text).length ≤ panelWidth chat.cols
    · exact faithful_single tm chat.cols hfits
    · obtain ⟨hplain, hrows⟩ := hcond.resolve_left hfits
      exact faithful_plain tm chat.cols hplain hfits hrows
  · intro hwidth hlast hfaithful
    rw [wrapsPlainly_iff chat.cols hwidth]
    by_contra hno
    obtain ⟨hfits, hbracket⟩ := not_or.mp hno
    exact not_faithful_bracket tm chat.cols hbracket hfits hwidth hlast hfaithful

/-- "Peer: ". -/
def peerTag : Bytes :=
  ascii "Peer: "

/-- Sixty bytes without a blank. -/
def longWord : Bytes :=
  List.replicate 60 0x79

/-- A long message in a terminal of 80 columns. -/
theorem tui_append_line_faithful_long :
    Faithful 55 (timestamp ⟨0, 0, 0⟩) (peerTag ++ longWord)
      (chatRows 80 (timestamp ⟨0, 0, 0⟩ ++ (peerTag ++ longWord))) :=
  (tui_append_line_faithful {} rfl (Nat.zero_le _) peerTag longWord ⟨0, 0, 0⟩).2.2.1
    ((wrapsPlainly_iff 80 (by decide)).mpr (Or.inr (by decide +kernel)))

/-- The same message behind "x] ": its second row is indented by twenty blanks, nine of which
belong to nothing. -/
theorem tui_append_line_indents :
    chatRows 80 (timestamp ⟨0, 0, 0⟩ ++ (peerTag ++ (ascii "x] " ++ longWord))) =
        [timestamp ⟨0, 0, 0⟩ ++ peerTag ++ ascii "x] " ++ List.replicate 35 0x79,
          List.replicate 20 0x20 ++ List.replicate 25 0x79] ∧
      ¬ Faithful (panelWidth 80) (timestamp ⟨0, 0, 0⟩) (peerTag ++ (ascii "x] " ++ longWord))
        (chatRows 80 (timestamp ⟨0, 0, 0⟩ ++ (peerTag ++ (ascii "x] " ++ longWord)))) := by
  refine ⟨by decide +kernel, ?_⟩
  exact not_faithful_bracket ⟨0, 0, 0⟩ 80 (by decide +kernel) (by decide +kernel) (by decide)
    (by decide +kernel)

end Append

end Ui
end Noxtor
