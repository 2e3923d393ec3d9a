import Mathlib.Data.List.TakeWhile
import Noxtor.App.Types

/-!
# Replies on the Tor control connection

`ctrl_read_line` and `ctrl_read_response`.  The connection delivers its bytes in any pieces, with
interrupted calls of `poll` and `read` between them, and ends with the end of the stream or an
error.  No deadline passes and no shutdown is requested.

The buffer of the caller is a list of exactly `buf_size` bytes; a write outside of it gives `none`.
-/

namespace Noxtor
namespace Net

open ByteString
open App (cstr)

/-- What comes next on the connection. -/
inductive Arrival where
  | data (bytes : Bytes)
  | pollEintr
  | readEintr
deriving DecidableEq, Repr

/-- How the connection ends once everything has arrived. -/
inductive Closing where
  | eof
  | readError
  | pollError
deriving DecidableEq, Repr

/-- The control connection: the bytes that can be read now and what is still to come. -/
structure CtrlConn where
  ready : Bytes := []
  arrivals : List Arrival := []
  closing : Closing := .eof
deriving DecidableEq, Repr

/-- All bytes that the connection will deliver. -/
def arriving : List Arrival → Bytes
  | [] => []
  | .data bytes :: rest => bytes ++ arriving rest
  | .pollEintr :: rest => arriving rest
  | .readEintr :: rest => arriving rest

def CtrlConn.stream (conn : CtrlConn) : Bytes :=
  conn.ready ++ arriving conn.arrivals

/-- `poll` and `read` of one byte; interrupted calls are made again. -/
def readByte (closing : Closing) : Bytes → List Arrival → Except NoxErr UInt8 × CtrlConn
  | c :: ready, arrivals => (.ok c, ⟨ready, arrivals, closing⟩)
  | [], .data bytes :: rest => readByte closing bytes rest
  | [], .pollEintr :: rest => readByte closing [] rest
  | [], .readEintr :: rest => readByte closing [] rest
  | [], [] =>
      match closing with
      | .pollError => (.error .io, ⟨[], [], closing⟩)
      | _ => (.error .tor, ⟨[], [], closing⟩)
termination_by _ arrivals => arrivals.length

/-- The loop of `ctrl_read_line` with room for `room` more bytes. -/
def readLineLoop : Nat → Bytes → CtrlConn → Except NoxErr Bytes × CtrlConn
  | 0, line, conn =>
      (if line.getLast? = some 0x0a then .ok line else .error .overflow, conn)
  | room + 1, line, conn =>
      match readByte conn.closing conn.ready conn.arrivals with
      | (.error err, conn) => (.error err, conn)
      | (.ok c, conn) =>
          if c = 0x0a then (.ok (line ++ [c]), conn)
          else readLineLoop room (line ++ [c]) conn

/-- `ctrl_read_line`: the bytes in front of the NUL it writes. -/
def ctrlReadLine (bufSize : Nat) (conn : CtrlConn) : Except NoxErr Bytes × CtrlConn :=
  if bufSize < 2 then (.error .config, conn)
  else readLineLoop (bufSize - 1) [] conn

/-- `memcpy(buf + off, src, len)`. -/
def memcpy (buf : Bytes) (off : Nat) (src : Bytes) : Option Bytes :=
  if off + src.length ≤ buf.length then
    some (buf.take off ++ src ++ buf.drop (off + src.length))
  else none

/-- "250 ": the reply ends with this line. -/
def lastLine (line : Bytes) : Bool :=
  line.take 4 = [0x32, 0x35, 0x30, 0x20]

/-- The line reports an error. -/
def errorLine (line : Bytes) : Bool :=
  3 ≤ line.length && (line.head? = some 0x34 || line.head? = some 0x35)

/-- `MAX_RESPONSE_LINES`. -/
def maxResponseLines : Nat := 64

/-- The loop of `ctrl_read_response` when `left` more lines are allowed. -/
def responseLoop : Nat → Nat → Bytes → CtrlConn → Option (Except NoxErr Unit × Bytes × CtrlConn)
  | 0, _, buf, conn =>
      match ctrlReadLine 256 conn with
      | (.error err, conn) => some (.error err, buf, conn)
      | (.ok _, conn) => some (.error .overflow, buf, conn)
  | left + 1, total, buf, conn =>
      match ctrlReadLine 256 conn with
      | (.error err, conn) => some (.error err, buf, conn)
      | (.ok line, conn) =>
          -- strlen(line)
          let line := cstr line
          if total + line.length + 1 ≥ buf.length then some (.error .overflow, buf, conn)
          else do
            let buf ← memcpy buf total line
            let total := total + line.length
            if lastLine line then
              let buf ← memcpy buf total [0]
              return (.ok (), buf, conn)
            else if errorLine line then
              let buf ← memcpy buf total [0]
              return (.error .tor, buf, conn)
            else
              responseLoop left total buf conn

def ctrlReadResponse (buf : Bytes) (conn : CtrlConn) :
    Option (Except NoxErr Unit × Bytes × CtrlConn) :=
  responseLoop maxResponseLines 0 buf conn

section Line

/-- A line of at most `n` bytes with its newline. -/
def IsLine (n : Nat) (line : Bytes) : Prop :=
  ∃ body, line = body ++ [0x0a] ∧ 0x0a ∉ body ∧ line.length ≤ n

theorem readByte_cons
    (closing : Closing) {ready : Bytes} {arrivals : List Arrival} {c : UInt8} {rest : Bytes}
    (h : ready ++ arriving arrivals = c :: rest) :
    ∃ conn, readByte closing ready arrivals = (.ok c, conn) ∧ conn.stream = rest := by
  induction arrivals generalizing ready with
  | nil =>
      cases ready with
      | nil =>
          cases h
      | cons d ready =>
          obtain ⟨rfl, rfl⟩ := List.cons.inj h
          exact ⟨_, by rw [readByte], rfl⟩
  | cons a arrivals ih =>
      cases ready with
      | nil =>
          cases a with
          | data bytes =>
              rw [readByte]
              exact ih h
          | pollEintr =>
              rw [readByte]
              exact ih h
          | readEintr =>
              rw [readByte]
              exact ih h
      | cons d ready =>
          obtain ⟨rfl, rfl⟩ := List.cons.inj h
          exact ⟨_, by rw [readByte], rfl⟩

theorem readByte_nil
    (closing : Closing) {arrivals : List Arrival} (h : arriving arrivals = []) :
    ∃ err conn, readByte closing [] arrivals = (.error err, conn) := by
  induction arrivals with
  | nil =>
      cases closing with
      | eof => exact ⟨_, _, by rw [readByte]; simp⟩
      | readError => exact ⟨_, _, by rw [readByte]; simp⟩
      | pollError => exact ⟨_, _, by rw [readByte]⟩
  | cons a arrivals ih =>
      cases a with
      | data bytes =>
          obtain ⟨rfl, hrest⟩ := List.append_eq_nil_iff.mp h
          rw [readByte]
          exact ih hrest
      | pollEintr =>
          rw [readByte]
          exact ih h
      | readEintr =>
          rw [readByte]
          exact ih h

variable {conn conn' : CtrlConn}

/-- A line that is there and fits is read, and nothing else. -/
theorem readLineLoop_line
    {body rest : Bytes} (h : conn.stream = body ++ 0x0a :: rest) (hbody : 0x0a ∉ body) {room : Nat}
    (hroom : body.length < room) (acc : Bytes) :
    ∃ conn', readLineLoop room acc conn = (.ok (acc ++ (body ++ [0x0a])), conn') ∧
      conn'.stream = rest := by
  induction body generalizing room acc conn with
  | nil =>
      obtain ⟨room, rfl⟩ := Nat.exists_eq_succ_of_ne_zero (Nat.ne_zero_of_lt hroom)
      obtain ⟨conn', hread, hrest⟩ := readByte_cons conn.closing h
      refine ⟨conn', ?_, hrest⟩
      simp [readLineLoop, hread]
  | cons c body ih =>
      obtain ⟨room, rfl⟩ := Nat.exists_eq_succ_of_ne_zero (Nat.ne_zero_of_lt hroom)
      obtain ⟨hc, hbody⟩ := not_or.mp (fun hor => hbody (List.mem_cons.mpr hor))
      obtain ⟨conn1, hread, hrest⟩ := readByte_cons conn.closing h
      obtain ⟨conn', hloop, hstream⟩ :=
        ih hrest hbody (Nat.lt_of_succ_lt_succ hroom) (acc ++ [c])
      refine ⟨conn', ?_, hstream⟩
      simpa [readLineLoop, hread, Ne.symm hc] using hloop

/-- What is read is a line at the head of the stream. -/
theorem readLineLoop_ok
    {room : Nat} {acc line : Bytes} (hacc : acc.getLast? ≠ some 0x0a)
    (h : readLineLoop room acc conn = (.ok line, conn')) :
    ∃ body, line = acc ++ (body ++ [0x0a]) ∧ 0x0a ∉ body ∧ body.length < room ∧
      conn.stream = body ++ 0x0a :: conn'.stream := by
  induction room generalizing acc conn with
  | zero =>
      simp only [readLineLoop, if_neg hacc, Prod.mk.injEq, reduceCtorEq, false_and] at h
  | succ room ih =>
      cases hs : conn.stream with
      | nil =>
          obtain ⟨hready, hnone⟩ := List.append_eq_nil_iff.mp hs
          obtain ⟨err, conn1, hread⟩ := readByte_nil conn.closing hnone
          rw [← hready] at hread
          simp [readLineLoop, hread] at h
      | cons c rest =>
          obtain ⟨conn1, hread, hrest⟩ := readByte_cons conn.closing hs
          simp only [readLineLoop, hread] at h
          by_cases hc : c = 0x0a
          · simp only [hc, if_true, Prod.mk.injEq, Except.ok.injEq] at h
            obtain ⟨rfl, rfl⟩ := h
            exact ⟨[], rfl, by simp, Nat.succ_pos room, by rw [hc, hrest]; rfl⟩
          · rw [if_neg hc] at h
            obtain ⟨body, hline, hbody, hlen, hstream⟩ := ih (by simpa using hc) h
            refine ⟨c :: body, ?_, ?_, Nat.succ_lt_succ hlen, ?_⟩
            · rw [hline]
              simp
            · simpa [Ne.symm hc] using hbody
            · rw [← hrest, hstream]
              rfl

/-- `ctrl_read_line` takes a line off the stream. -/
theorem ctrlReadLine_ok
    {bufSize : Nat} {line : Bytes} (h : ctrlReadLine bufSize conn = (.ok line, conn')) :
    IsLine (bufSize - 1) line ∧ conn.stream = line ++ conn'.stream := by
  unfold ctrlReadLine at h
  split at h
  · cases h
  · obtain ⟨body, hline, hbody, hlen, hstream⟩ := readLineLoop_ok (by simp) h
    rw [List.nil_append] at hline
    refine ⟨⟨body, hline, hbody, ?_⟩, ?_⟩
    · rw [hline, List.length_append, List.length_singleton]
      omega
    · rw [hstream, hline, List.append_assoc]
      rfl

theorem ctrlReadLine_line
    {bufSize : Nat} (hsize : 2 ≤ bufSize) {line rest : Bytes} (hline : IsLine (bufSize - 1) line)
    (hstream : conn.stream = line ++ rest) :
    ∃ conn', ctrlReadLine bufSize conn = (.ok line, conn') ∧ conn'.stream = rest := by
  obtain ⟨body, rfl, hbody, hlen⟩ := hline
  rw [List.length_append, List.length_singleton] at hlen
  have hroom : body.length < bufSize - 1 := by omega
  rw [List.append_assoc] at hstream
  unfold ctrlReadLine
  rw [if_neg (by omega)]
  exact readLineLoop_line hstream hbody hroom []

end Line

section Response

/-- The last line is the first one with "250 ", and no line before it reports an error. -/
def Ends (lines : List Bytes) : Prop :=
  ∃ earlier last, lines = earlier ++ [last] ∧ lastLine last = true ∧
    ∀ line ∈ earlier, lastLine line = false ∧ errorLine line = false

/--
The lines of a reply that `ctrl_read_response` accepts: at most 64 of at most 255 bytes, of which
the last is the first one with "250 ", none before it reports an error, and every beginning of
the reply fits.
-/
structure IsReply (bufSize : Nat) (lines : List Bytes) : Prop where
  count : lines.length ≤ maxResponseLines
  eachLine : ∀ line ∈ lines, IsLine 255 line
  ends : Ends lines
  fits : ∀ first, first <+: lines → first.flatten.length + 1 < bufSize

/-- The same line by line, as the loop sees it. -/
def Accepts (bufSize : Nat) : Nat → Nat → List Bytes → Prop
  | _, _, [] => False
  | 0, _, _ :: _ => False
  | left + 1, total, line :: more =>
      IsLine 255 line ∧ total + line.length + 1 < bufSize ∧
        if lastLine line = true then more = []
        else errorLine line = false ∧ Accepts bufSize left (total + line.length) more

variable {buf : Bytes} {conn : CtrlConn}

theorem memcpy_spec
    (buf : Bytes) (off : Nat) (src : Bytes) (h : off + src.length ≤ buf.length) :
    ∃ buf', memcpy buf off src = some buf' ∧ buf'.length = buf.length ∧
      buf'.take (off + src.length) = buf.take off ++ src ∧
      ∀ k, off + src.length ≤ k → buf'.drop k = buf.drop k := by
  have hpre : (buf.take off ++ src).length = off + src.length := by
    rw [List.length_append, List.length_take_of_le (by omega)]
  refine ⟨_, if_pos h, ?_, List.take_left' hpre, ?_⟩
  · rw [List.length_append, hpre, List.length_drop]
    omega
  · intro k hk
    rw [List.drop_append, hpre, List.drop_of_length_le (hpre ▸ hk), List.nil_append, List.drop_drop]
    congr 1
    omega

/-- The buffer with the lines from `total` on and the NUL behind them. -/
def written (buf : Bytes) (total : Nat) (text : Bytes) : Bytes :=
  buf.take total ++ text ++ 0 :: buf.drop (total + text.length + 1)

theorem memcpy_nul
    {total : Nat} (h : total < buf.length) :
    memcpy buf total [0] = some (written buf total []) := by
  unfold memcpy written
  rw [if_pos (by simpa using h)]
  simp

theorem cstr_of_no_nul
    {line : Bytes} (h : 0 ∉ line) :
    cstr line = line := by
  unfold cstr
  rw [List.takeWhile_eq_self_iff]
  intro c hc
  refine decide_eq_true ?_
  rintro rfl
  exact h hc

/-- Lines behind a line that has been copied. -/
theorem written_copied
    {buf' line : Bytes} {total : Nat}
    (htake : buf'.take (total + line.length) = buf.take total ++ line)
    (hdrop : ∀ k, total + line.length ≤ k → buf'.drop k = buf.drop k) (text : Bytes) :
    written buf' (total + line.length) text = written buf total (line ++ text) := by
  unfold written
  rw [htake, hdrop _ (by omega), List.length_append]
  simp [Nat.add_assoc]

theorem written_length
    {total : Nat} {text : Bytes} (h : total + text.length < buf.length) :
    (written buf total text).length = buf.length := by
  unfold written
  simp only [List.length_append, List.length_cons, List.length_take, List.length_drop]
  omega

/-- One round of the loop with a line that fits. -/
theorem responseLoop_line
    (left : Nat) {total : Nat} {line : Bytes} {conn1 : CtrlConn}
    (hread : ctrlReadLine 256 conn = (.ok line, conn1)) (hzero : 0 ∉ line)
    (hfits : total + line.length + 1 < buf.length) :
    ∃ buf1, buf1.length = buf.length ∧
      (∀ text, written buf1 (total + line.length) text = written buf total (line ++ text)) ∧
      responseLoop (left + 1) total buf conn =
        if lastLine line = true then some (.ok (), written buf total line, conn1)
        else if errorLine line = true then some (.error .tor, written buf total line, conn1)
        else responseLoop left (total + line.length) buf1 conn1 := by
  obtain ⟨buf1, hcopy, hlen, htake, hdrop⟩ := memcpy_spec buf total line (by omega)
  have hwritten := written_copied htake hdrop
  have hnul : memcpy buf1 (total + line.length) [0] = some (written buf total line) := by
    rw [memcpy_nul (by omega), hwritten, List.append_nil]
  refine ⟨buf1, hlen, hwritten, ?_⟩
  simp only [responseLoop, hread, cstr_of_no_nul hzero]
  rw [if_neg (by omega), hcopy]
  simp only [Option.bind_eq_bind, Option.bind_some, hnul]
  rfl

/-- The loop never writes outside of the buffer, and what it accepts is there. -/
theorem responseLoop_sound
    (left total : Nat) (buf : Bytes) (conn : CtrlConn) (hzero : 0 ∉ conn.stream) :
    ∃ res buf' conn', responseLoop left total buf conn = some (res, buf', conn') ∧
      buf'.length = buf.length ∧
      (res = .ok () → ∃ lines, Accepts buf.length left total lines ∧
        lines.flatten <+: conn.stream) := by
  induction left generalizing total buf conn with
  | zero =>
      simp only [responseLoop]
      cases hread : ctrlReadLine 256 conn with
      | mk res conn1 =>
          cases res with
          | error err => exact ⟨_, _, _, rfl, rfl, fun h => by cases h⟩
          | ok line => exact ⟨_, _, _, rfl, rfl, fun h => by cases h⟩
  | succ left ih =>
      cases hread : ctrlReadLine 256 conn with
      | mk res conn1 =>
          cases res with
          | error err =>
              simp only [responseLoop, hread]
              exact ⟨_, _, _, rfl, rfl, fun h => by cases h⟩
          | ok line =>
              obtain ⟨hline, hstream⟩ := ctrlReadLine_ok hread
              have hno : 0 ∉ line := fun hmem =>
                hzero (hstream ▸ List.mem_append_left _ hmem)
              have hno1 : 0 ∉ conn1.stream := fun hmem =>
                hzero (hstream ▸ List.mem_append_right _ hmem)
              by_cases hfits : total + line.length + 1 < buf.length
              · obtain ⟨buf1, hlen, -, hloop⟩ := responseLoop_line left hread hno hfits
                have hwritten : (written buf total line).length = buf.length :=
                  written_length (by omega)
                rw [hloop]
                by_cases hlast : lastLine line = true
                · rw [if_pos hlast]
                  refine ⟨_, _, _, rfl, hwritten, fun _ => ⟨[line], ?_, ?_⟩⟩
                  · exact ⟨hline, hfits, by rw [if_pos hlast]⟩
                  · exact ⟨conn1.stream, by rw [hstream]; simp⟩
                · rw [if_neg hlast]
                  by_cases herror : errorLine line = true
                  · rw [if_pos herror]
                    exact ⟨_, _, _, rfl, hwritten, fun h => by cases h⟩
                  · rw [if_neg herror]
                    obtain ⟨res, buf', conn', hrun, hlen', hok⟩ :=
                      ih (total + line.length) buf1 conn1 hno1
                    refine ⟨res, buf', conn', hrun, hlen'.trans hlen, fun hres => ?_⟩
                    obtain ⟨lines, haccepts, hprefix⟩ := hok hres
                    rw [hlen] at haccepts
                    refine ⟨line :: lines, ⟨hline, hfits, ?_⟩, ?_⟩
                    · rw [if_neg hlast]
                      exact ⟨by simpa using herror, haccepts⟩
                    · rw [hstream, List.flatten_cons]
                      exact (List.prefix_append_right_inj line).mpr hprefix
              · simp only [responseLoop, hread, cstr_of_no_nul hno]
                rw [if_pos (by omega)]
                exact ⟨_, _, _, rfl, rfl, fun h => by cases h⟩

/-- Lines that are there and acceptable are accepted, copied and taken off the stream. -/
theorem responseLoop_complete
    {left total : Nat} {lines : List Bytes} {rest : Bytes} {buf : Bytes} {conn : CtrlConn}
    (h : Accepts buf.length left total lines) (hzero : 0 ∉ conn.stream)
    (hstream : conn.stream = lines.flatten ++ rest) :
    ∃ conn', responseLoop left total buf conn =
        some (.ok (), written buf total lines.flatten, conn') ∧ conn'.stream = rest := by
  induction left generalizing total lines buf conn with
  | zero =>
      cases lines with
      | nil => cases h
      | cons line lines => cases h
  | succ left ih =>
      cases lines with
      | nil =>
          cases h
      | cons line lines =>
          obtain ⟨hline, hfits, hmore⟩ := h
          rw [List.flatten_cons, List.append_assoc] at hstream
          obtain ⟨conn1, hread, hrest⟩ := ctrlReadLine_line (by decide : 2 ≤ 256) hline hstream
          have hno : 0 ∉ line := fun hmem => hzero (hstream ▸ List.mem_append_left _ hmem)
          obtain ⟨buf1, hlen, hwritten, hloop⟩ := responseLoop_line left hread hno hfits
          rw [hloop]
          by_cases hlast : lastLine line = true
          · rw [if_pos hlast] at hmore ⊢
            subst hmore
            exact ⟨conn1, by simp, by simpa using hrest⟩
          · rw [if_neg hlast] at hmore ⊢
            obtain ⟨herror, hmore⟩ := hmore
            have hno1 : 0 ∉ conn1.stream := by
              rw [hrest]
              exact fun hmem => hzero (hstream ▸ List.mem_append_right _ hmem)
            rw [if_neg (by simp [herror])]
            obtain ⟨conn', hrun, hrest'⟩ := ih (hlen.symm ▸ hmore) hno1 hrest
            refine ⟨conn', ?_, hrest'⟩
            rw [hrun, hwritten]
            rfl

theorem ends_cons
    (line : Bytes) (more : List Bytes) :
    Ends (line :: more) ↔
      if lastLine line = true then more = [] else errorLine line = false ∧ Ends more := by
  constructor
  · rintro ⟨earlier, last, heq, hlast, hearlier⟩
    cases earlier with
    | nil =>
        obtain ⟨rfl, rfl⟩ := List.cons.inj heq
        rw [if_pos hlast]
    | cons first earlier =>
        obtain ⟨rfl, rfl⟩ := List.cons.inj heq
        obtain ⟨⟨hno, herror⟩, hrest⟩ := List.forall_mem_cons.mp hearlier
        rw [if_neg (by simp [hno])]
        exact ⟨herror, earlier, last, rfl, hlast, hrest⟩
  · split
    · rename_i hlast
      rintro rfl
      exact ⟨[], line, rfl, hlast, by simp⟩
    · rename_i hno
      rintro ⟨herror, earlier, last, rfl, hlast, hearlier⟩
      exact ⟨line :: earlier, last, rfl, hlast,
        List.forall_mem_cons.mpr ⟨⟨by simpa using hno, herror⟩, hearlier⟩⟩

/-- Every beginning of the lines fits behind `total` bytes. -/
def Fits (bufSize total : Nat) (lines : List Bytes) : Prop :=
  ∀ first, first <+: lines → total + first.flatten.length + 1 < bufSize

theorem fits_nil
    {bufSize total : Nat} :
    Fits bufSize total [] ↔ total + 1 < bufSize := by
  constructor
  · intro h
    simpa using h [] List.prefix_rfl
  · intro h first hfirst
    rw [List.prefix_nil.mp hfirst]
    simpa using h

theorem fits_cons
    {bufSize total : Nat} (line : Bytes) (more : List Bytes) :
    Fits bufSize total (line :: more) ↔ Fits bufSize (total + line.length) more := by
  constructor
  · intro h first hfirst
    have hline := h (line :: first) (List.cons_prefix_cons.mpr ⟨rfl, hfirst⟩)
    rw [List.flatten_cons, List.length_append] at hline
    omega
  · intro h first hfirst
    obtain rfl | ⟨first', rfl, hfirst'⟩ := List.prefix_cons_iff.mp hfirst
    · have hempty := h [] (List.nil_prefix)
      simp only [List.flatten_nil, List.length_nil] at hempty ⊢
      omega
    · have hline := h first' hfirst'
      rw [List.flatten_cons, List.length_append]
      omega

theorem accepts_iff
    {bufSize left total : Nat} {lines : List Bytes} :
    Accepts bufSize left total lines ↔
      lines.length ≤ left ∧ (∀ line ∈ lines, IsLine 255 line) ∧ Ends lines ∧
        Fits bufSize total lines := by
  induction lines generalizing left total with
  | nil =>
      refine ⟨fun h => by cases left <;> exact h.elim, ?_⟩
      rintro ⟨-, -, ⟨earlier, last, heq, -⟩, -⟩
      simp at heq
  | cons line more ih =>
      rw [ends_cons, fits_cons, List.forall_mem_cons, List.length_cons]
      cases left with
      | zero =>
          exact ⟨fun h => h.elim, fun h => absurd h.1 (Nat.not_succ_le_zero _)⟩
      | succ left =>
          have hfits : Fits bufSize (total + line.length) more →
              total + line.length + 1 < bufSize := by
            intro h
            simpa using h [] List.nil_prefix
          rw [Accepts]
          by_cases hlast : lastLine line = true
          · rw [if_pos hlast, if_pos hlast]
            constructor
            · rintro ⟨hline, hroom, rfl⟩
              exact ⟨by simp, ⟨hline, by simp⟩, rfl, fits_nil.mpr hroom⟩
            · rintro ⟨-, ⟨hline, -⟩, rfl, hroom⟩
              exact ⟨hline, hfits hroom, rfl⟩
          · rw [if_neg hlast, if_neg hlast, ih]
            constructor
            · rintro ⟨hline, hroom, herror, hcount, hmore, hends, hrest⟩
              exact ⟨Nat.succ_le_succ hcount, ⟨hline, hmore⟩, ⟨herror, hends⟩, hrest⟩
            · rintro ⟨hcount, ⟨hline, hmore⟩, ⟨herror, hends⟩, hrest⟩
              exact ⟨hline, hfits hrest, herror, Nat.le_of_succ_le_succ hcount, hmore, hends, hrest⟩

theorem isReply_iff
    {bufSize : Nat} {lines : List Bytes} :
    IsReply bufSize lines ↔ Accepts bufSize maxResponseLines 0 lines := by
  rw [accepts_iff]
  unfold Fits
  constructor
  · intro h
    exact ⟨h.count, h.eachLine, h.ends, fun first hfirst => by simpa using h.fits first hfirst⟩
  · rintro ⟨hcount, heach, hends, hfits⟩
    exact ⟨hcount, heach, hends, fun first hfirst => by simpa using hfits first hfirst⟩

/--
For every stream without NUL, in any pieces, and every buffer, `ctrl_read_response` returns and
writes only into the buffer.  It returns `NOX_OK` if and only if the stream starts with the lines
of a reply, and then the buffer holds these lines and a NUL in front of its old contents and
exactly these lines have been taken off the stream.
-/
theorem ctrl_read_response_spec
    (buf : Bytes) (conn : CtrlConn) (hzero : 0 ∉ conn.stream) :
    ∃ res buf' conn', ctrlReadResponse buf conn = some (res, buf', conn') ∧
      buf'.length = buf.length ∧
      (res = .ok () ↔ ∃ lines, IsReply buf.length lines ∧ lines.flatten <+: conn.stream) ∧
      ∀ lines, IsReply buf.length lines → lines.flatten <+: conn.stream →
        buf' = lines.flatten ++ 0 :: buf.drop (lines.flatten.length + 1) ∧
          conn.stream = lines.flatten ++ conn'.stream := by
  obtain ⟨res, buf', conn', hrun, hlen, hsound⟩ :=
    responseLoop_sound maxResponseLines 0 buf conn hzero
  have hcomplete : ∀ lines, IsReply buf.length lines → lines.flatten <+: conn.stream →
      res = .ok () ∧ buf' = lines.flatten ++ 0 :: buf.drop (lines.flatten.length + 1) ∧
        conn.stream = lines.flatten ++ conn'.stream := by
    rintro lines hreply ⟨rest, hrest⟩
    obtain ⟨conn1, hrun1, hrest1⟩ :=
      responseLoop_complete (isReply_iff.mp hreply) hzero hrest.symm
    obtain ⟨rfl, rfl, rfl⟩ : res = .ok () ∧ buf' = written buf 0 lines.flatten ∧ conn' = conn1 := by
      simpa using hrun.symm.trans hrun1
    exact ⟨rfl, by simp [written], by rw [hrest1, hrest]⟩
  refine ⟨res, buf', conn', hrun, hlen, ⟨?_, ?_⟩, ?_⟩
  · intro hres
    obtain ⟨lines, haccepts, hprefix⟩ := hsound hres
    exact ⟨lines, isReply_iff.mpr haccepts, hprefix⟩
  · rintro ⟨lines, hreply, hprefix⟩
    exact (hcomplete lines hreply hprefix).1
  · intro lines hreply hprefix
    exact (hcomplete lines hreply hprefix).2

/-- "250-a". -/
def sampleFirstLine : Bytes :=
  [0x32, 0x35, 0x30, 0x2d, 0x61, 0x0a]

/-- "250 b". -/
def sampleLastLine : Bytes :=
  [0x32, 0x35, 0x30, 0x20, 0x62, 0x0a]

/-- The two lines in three pieces with an interrupted call, and a byte of the next reply. -/
def sampleConn : CtrlConn where
  arrivals := [.data [0x32, 0x35], .pollEintr, .data [0x30, 0x2d, 0x61, 0x0a, 0x32],
    .data [0x35, 0x30, 0x20, 0x62, 0x0a, 0x35]]

/-- A buffer of 14 bytes is just large enough. -/
theorem ctrl_read_response_two_lines :
    ∃ res conn', ctrlReadResponse (List.replicate 14 0xff) sampleConn =
        some (res, sampleFirstLine ++ sampleLastLine ++ [0, 0xff], conn') ∧
      res = .ok () ∧ conn'.stream = [0x35] := by
  obtain ⟨res, buf', conn', hrun, -, hiff, hall⟩ :=
    ctrl_read_response_spec (List.replicate 14 0xff) sampleConn (by decide +kernel)
  have hreply : IsReply (List.replicate 14 (0xff : UInt8)).length
      [sampleFirstLine, sampleLastLine] := by
    refine isReply_iff.mpr ⟨⟨[0x32, 0x35, 0x30, 0x2d, 0x61], rfl, ?_, ?_⟩, ?_, ?_, ?_⟩
    · decide +kernel
    · decide
    · decide
    · decide
    · exact ⟨⟨[0x32, 0x35, 0x30, 0x20, 0x62], rfl, by decide +kernel, by decide⟩, by decide, rfl⟩
  have hprefix : [sampleFirstLine, sampleLastLine].flatten <+: sampleConn.stream := ⟨[0x35], rfl⟩
  obtain ⟨hbuf, hstream⟩ := hall _ hreply hprefix
  refine ⟨res, conn', ?_, hiff.mpr ⟨_, hreply, hprefix⟩, ?_⟩
  · rw [hrun, hbuf]
    rfl
  · have hsplit : [sampleFirstLine, sampleLastLine].flatten ++ [0x35] =
        [sampleFirstLine, sampleLastLine].flatten ++ conn'.stream := hstream
    exact (List.append_cancel_left hsplit).symm

end Response

end Net
end Noxtor
