import Noxtor.App.Onion
import Noxtor.Net.ControlReply

/-!
# The SOCKS5 dialogue

`read_full` and `socks5_connect`.  The proxy delivers its bytes in any pieces, with interrupted
and premature reads between them, and then nothing more comes: the end of the stream, an error and
the deadline all make `read_full` return `NOX_ERR_IO`.

The first bytes of the peer follow the reply of the proxy on the same descriptor, so a dialogue
that succeeds has to consume the reply and not a byte more.  `Consumes` says this of a part of the
dialogue, and the parts are composed as the code reads them.
-/

namespace Noxtor
namespace Net

open ByteString
open App (validateOnionAddress)

/-- What happens next on the connection to the proxy. -/
inductive SocksEvent where
  | data (bytes : Bytes)
  | pollEintr
  | readEintr
  | readEagain
deriving DecidableEq, Repr

/-- The bytes that an event brings. -/
def SocksEvent.bytes : SocksEvent → Bytes
  | data bytes => bytes
  | _ => []

/-- The bytes that can be read now, and what is still to come. -/
structure SocksConn where
  ready : Bytes := []
  events : List SocksEvent := []
deriving DecidableEq, Repr

/-- All bytes that the proxy will deliver. -/
def SocksConn.stream (conn : SocksConn) : Bytes :=
  conn.ready ++ conn.events.flatMap SocksEvent.bytes

/-- The loop of `read_full`, when `want` bytes are still to be written behind `buf + off`.  A read
takes what is there; an event that brings nothing is a turn without one. -/
def readFullLoop : List SocksEvent → Bytes → Nat → Nat → Bytes →
    Option (Except NoxErr Unit × Bytes × SocksConn)
  | [], ready, off, want, buf => do
      let buf ← memcpy buf off (ready.take want)
      if want ≤ ready.length then return (.ok (), buf, ⟨ready.drop want, []⟩)
      else return (.error .io, buf, ⟨[], []⟩)
  | event :: events, ready, off, want, buf => do
      let buf ← memcpy buf off (ready.take want)
      if want ≤ ready.length then return (.ok (), buf, ⟨ready.drop want, event :: events⟩)
      else readFullLoop events event.bytes (off + ready.length) (want - ready.length) buf

/-- `read_full` into a buffer; `none` is a write outside of it. -/
def readFull (buf : Bytes) (len : Nat) (conn : SocksConn) :
    Option (Except NoxErr Unit × Bytes × SocksConn) :=
  readFullLoop conn.events conn.ready 0 len buf

/-- The results of the other calls of `socks5_connect`. -/
structure SocksEnv where
  socket : Bool
  connect : Bool
  writeFull : Bytes → Bool
  getfl : Bool
  setfl : Bool

/-- `sizeof(proxy.sun_path)`. -/
def sunPathSize : Nat := 108

/-- The greeting: version 5, one method, no authentication. -/
def socksGreeting : Bytes := [0x05, 0x01, 0x00]

/-- The CONNECT request for a domain name. -/
def socksRequest (onionAddr : Bytes) (port : UInt16) : Bytes :=
  [0x05, 0x01, 0x00, 0x03, UInt8.ofNat onionAddr.length] ++ onionAddr ++
    [(port >>> 8).toUInt8, (port &&& 0xff).toUInt8]

/-- A part of the dialogue: its result and the connection behind it. -/
abbrev SocksPart := SocksConn → Option (Except NoxErr Unit × SocksConn)

/-- The descriptor is closed, with this error. -/
def socksFail (err : NoxErr) : SocksPart := fun conn => some (.error err, conn)

/-- A `read_full` whose failure is `NOX_ERR_NET`; the rest of the dialogue sees the buffer. -/
def readOrFail (buf : Bytes) (len : Nat) (next : Bytes → SocksPart) : SocksPart := fun conn => do
  let (res, buf, conn) ← readFull buf len conn
  match res with
  | .error _ => socksFail .net conn
  | .ok () => next buf conn

/-- The descriptor becomes non-blocking, and is handed out. -/
def socksFinish (E : SocksEnv) : SocksPart := fun conn =>
  if !E.getfl then socksFail .net conn
  else if !E.setfl then socksFail .net conn
  else some (.ok (), conn)

/-- `drain[256 + 2]`. -/
def drainBuf : Bytes := List.replicate 258 0

/-- The bound address and port are read and thrown away. -/
def socksDrain (E : SocksEnv) (atyp : UInt8) : SocksPart :=
  if atyp = 0x01 then readOrFail drainBuf (4 + 2) fun _ => socksFinish E
  else if atyp = 0x04 then readOrFail drainBuf (16 + 2) fun _ => socksFinish E
  else if atyp = 0x03 then
    readOrFail [0] 1 fun dlen =>
      readOrFail drainBuf ((dlen.headD 0).toNat + 2) fun _ => socksFinish E
  else socksFail .net

/-- The reply to the request. -/
def socksResponse (E : SocksEnv) : SocksPart :=
  readOrFail [0, 0, 0, 0] 4 fun sresp =>
    if sresp.getD 0 0 ≠ 0x05 ∨ sresp.getD 1 0 ≠ 0x00 then socksFail .net
    else socksDrain E (sresp.getD 3 0)

section Connect

variable (P : Primitives) (E : SocksEnv)

/-- `socks5_connect`. -/
def socks5Connect (onionAddr : Bytes) (port : UInt16) (socksPath : Bytes) : SocksPart :=
  if !E.socket then socksFail .net
  else if socksPath.length ≥ sunPathSize then socksFail .config
  else if !E.connect then socksFail .net
  else if !E.writeFull socksGreeting then socksFail .io
  else
    readOrFail [0, 0] 2 fun gresp =>
      if gresp.getD 0 0 ≠ 0x05 ∨ gresp.getD 1 0 ≠ 0x00 then socksFail .net
      else if !validateOnionAddress P onionAddr then socksFail .net
      else if !E.writeFull (socksRequest onionAddr port) then socksFail .io
      else socksResponse E

end Connect

theorem memcpy_eq
    {buf : Bytes} {off : Nat} {src : Bytes} (h : off + src.length ≤ buf.length) :
    memcpy buf off src = some (buf.take off ++ src ++ buf.drop (off + src.length)) :=
  if_pos h

/-- Two pieces next to each other are one piece. -/
theorem splice_splice
    (buf a b : Bytes) (off : Nat) (h : off + a.length + b.length ≤ buf.length) :
    (buf.take off ++ a ++ buf.drop (off + a.length)).take (off + a.length) ++ b ++
        (buf.take off ++ a ++ buf.drop (off + a.length)).drop (off + a.length + b.length) =
      buf.take off ++ (a ++ b) ++ buf.drop (off + (a ++ b).length) := by
  have hlen : (buf.take off ++ a).length = off + a.length := by
    rw [List.length_append, List.length_take_of_le (by omega)]
  have htake : (buf.take off ++ a ++ buf.drop (off + a.length)).take (off + a.length) =
      buf.take off ++ a :=
    List.take_left' hlen
  have hdrop : (buf.take off ++ a ++ buf.drop (off + a.length)).drop (off + a.length + b.length) =
      buf.drop (off + a.length + b.length) := by
    rw [List.drop_append, hlen, List.drop_of_length_le (by omega), List.nil_append,
      List.drop_drop]
    congr 1
    omega
  rw [htake, hdrop, List.length_append, List.append_assoc, List.append_assoc, List.append_assoc,
    List.append_assoc, Nat.add_assoc]

/-- What the loop has done when it ends, in terms of the bytes that were to come. -/
theorem readFullLoop_spec
    (events : List SocksEvent) (ready : Bytes) (off want : Nat) (buf : Bytes)
    (hroom : off + want ≤ buf.length) :
    (want ≤ (ready ++ events.flatMap SocksEvent.bytes).length →
      ∃ conn, readFullLoop events ready off want buf =
          some (.ok (), buf.take off ++ (ready ++ events.flatMap SocksEvent.bytes).take want ++
            buf.drop (off + want), conn) ∧
        conn.stream = (ready ++ events.flatMap SocksEvent.bytes).drop want) ∧
    ((ready ++ events.flatMap SocksEvent.bytes).length < want →
      ∃ buf' conn, readFullLoop events ready off want buf = some (.error .io, buf', conn)) := by
  induction events generalizing ready off want buf with
  | nil =>
      have hcopy : off + (ready.take want).length ≤ buf.length := by
        rw [List.length_take]
        omega
      unfold readFullLoop
      rw [memcpy_eq hcopy, List.flatMap_nil, List.append_nil]
      constructor
      · intro hwant
        refine ⟨⟨ready.drop want, []⟩, ?_, ?_⟩
        · simp [hwant]
        · exact List.append_nil _
      · intro hshort
        refine ⟨buf.take off ++ ready.take want ++ buf.drop (off + (ready.take want).length),
          ⟨[], []⟩, ?_⟩
        simp [Nat.not_le.mpr hshort]
  | cons event events ih =>
      have hcopy : off + (ready.take want).length ≤ buf.length := by
        rw [List.length_take]
        omega
      unfold readFullLoop
      rw [memcpy_eq hcopy, List.flatMap_cons]
      by_cases hwant : want ≤ ready.length
      · constructor
        · intro _
          refine ⟨⟨ready.drop want, event :: events⟩, ?_, ?_⟩
          · simp [hwant, List.take_append_of_le_length]
          · rw [List.drop_append_of_le_length hwant]
            rfl
        · intro hshort
          rw [List.length_append] at hshort
          omega
      · have htake : ready.take want = ready := List.take_of_length_le (by omega)
        have hlen : (buf.take off ++ ready ++ buf.drop (off + ready.length)).length =
            buf.length := by
          rw [List.length_append, List.length_append, List.length_take_of_le (by omega),
            List.length_drop]
          omega
        obtain ⟨hdone, hfail⟩ := ih event.bytes (off + ready.length) (want - ready.length)
          (buf.take off ++ ready ++ buf.drop (off + ready.length)) (by omega)
        have hstep : (do
            let buf ← some (buf.take off ++ ready.take want ++
              buf.drop (off + (ready.take want).length))
            if want ≤ ready.length then
              return (Except.ok (), buf, (⟨ready.drop want, event :: events⟩ : SocksConn))
            else readFullLoop events event.bytes (off + ready.length) (want - ready.length) buf) =
            readFullLoop events event.bytes (off + ready.length) (want - ready.length)
              (buf.take off ++ ready ++ buf.drop (off + ready.length)) := by
          rw [htake]
          simp [hwant]
        rw [hstep]
        constructor
        · intro henough
          rw [List.length_append] at henough
          obtain ⟨conn, hrun, hrest⟩ := hdone (by omega)
          refine ⟨conn, ?_, ?_⟩
          · have hsplit : (ready ++ (event.bytes ++ events.flatMap SocksEvent.bytes)).take want =
                ready ++ (event.bytes ++ events.flatMap SocksEvent.bytes).take
                  (want - ready.length) := by
              rw [List.take_append, htake]
            have hgot : ((event.bytes ++ events.flatMap SocksEvent.bytes).take
                (want - ready.length)).length = want - ready.length :=
              List.length_take_of_le (by omega)
            have hsplice := splice_splice buf ready
              ((event.bytes ++ events.flatMap SocksEvent.bytes).take (want - ready.length)) off
              (by omega)
            have hend : off + (ready.length + (want - ready.length)) = off + want := by
              omega
            rw [hgot, List.length_append, hgot, hend] at hsplice
            rw [hrun, hsplit, hsplice]
          · rw [hrest]
            generalize event.bytes ++ events.flatMap SocksEvent.bytes = later
            have hnil : ready.drop want = [] := List.drop_of_length_le (by omega)
            rw [List.drop_append, hnil, List.nil_append]
        · intro hshort
          rw [List.length_append] at hshort
          exact hfail (by omega)

/-- A `read_full` that has room gets its bytes if they come, and fails otherwise. -/
theorem readFull_spec
    {buf : Bytes} {len : Nat} (hroom : len ≤ buf.length) (conn : SocksConn) :
    (len ≤ conn.stream.length →
      ∃ conn', readFull buf len conn =
          some (.ok (), conn.stream.take len ++ buf.drop len, conn') ∧
        conn'.stream = conn.stream.drop len) ∧
    (conn.stream.length < len →
      ∃ buf' conn', readFull buf len conn = some (.error .io, buf', conn')) := by
  have hspec := readFullLoop_spec conn.events conn.ready 0 len buf (by omega)
  simp only [List.take_zero, List.nil_append, Nat.zero_add] at hspec
  exact hspec

/-- The part succeeds exactly if the proxy sends one of the words `R` first, and then it has
consumed that word.  It always ends. -/
structure Consumes (part : SocksPart) (R : Bytes → Prop) : Prop where
  ends : ∀ conn, ∃ res conn', part conn = some (res, conn')
  sound : ∀ conn conn', part conn = some (.ok (), conn') →
    ∃ word, R word ∧ conn.stream = word ++ conn'.stream
  complete : ∀ conn word rest, R word → conn.stream = word ++ rest →
    ∃ conn', part conn = some (.ok (), conn') ∧ conn'.stream = rest

namespace Consumes

variable {part part' : SocksPart} {R R' : Bytes → Prop}

theorem congr
    (h : Consumes part R) (hiff : ∀ word, R word ↔ R' word) :
    Consumes part R' := by
  have heq : R = R' := funext fun word => propext (hiff word)
  rw [← heq]
  exact h

/-- A part that fails. -/
theorem fail
    (err : NoxErr) :
    Consumes (socksFail err) fun _ => False := by
  refine ⟨fun conn => ⟨_, _, rfl⟩, ?_, ?_⟩
  · intro conn conn' h
    cases h
  · intro conn word rest h
    exact absurd h id

theorem ite
    {c : Prop} [Decidable c] (h : c → Consumes part R) (h' : ¬ c → Consumes part' R') :
    Consumes (if c then part else part') fun word => if c then R word else R' word := by
  by_cases hc : c
  · simp only [if_pos hc]
    exact h hc
  · simp only [if_neg hc]
    exact h' hc

/-- A `read_full` and what follows it. -/
theorem read
    {buf : Bytes} {len : Nat} {next : Bytes → SocksPart} {S : Bytes → Bytes → Prop}
    (hroom : len ≤ buf.length)
    (hnext : ∀ got : Bytes, got.length = len → Consumes (next (got ++ buf.drop len)) (S got)) :
    Consumes (readOrFail buf len next) fun word =>
      ∃ got more, got.length = len ∧ word = got ++ more ∧ S got more := by
  have hrun : ∀ conn : SocksConn, len ≤ conn.stream.length →
      ∃ conn', readOrFail buf len next conn =
          next (conn.stream.take len ++ buf.drop len) conn' ∧
        conn'.stream = conn.stream.drop len := by
    intro conn henough
    obtain ⟨conn', hread, hrest⟩ := (readFull_spec hroom conn).1 henough
    refine ⟨conn', ?_, hrest⟩
    unfold readOrFail
    rw [hread]
    rfl
  have hshort : ∀ conn : SocksConn, conn.stream.length < len →
      ∃ conn', readOrFail buf len next conn = some (.error .net, conn') := by
    intro conn hless
    obtain ⟨buf', conn', hread⟩ := (readFull_spec hroom conn).2 hless
    refine ⟨conn', ?_⟩
    unfold readOrFail
    rw [hread]
    rfl
  refine ⟨?_, ?_, ?_⟩
  · intro conn
    rcases Nat.lt_or_ge conn.stream.length len with hless | henough
    · obtain ⟨conn', h⟩ := hshort conn hless
      exact ⟨_, _, h⟩
    · obtain ⟨conn', h, -⟩ := hrun conn henough
      rw [h]
      exact (hnext _ (List.length_take_of_le henough)).ends conn'
  · intro conn conn'' hok
    rcases Nat.lt_or_ge conn.stream.length len with hless | henough
    · obtain ⟨conn', h⟩ := hshort conn hless
      rw [h] at hok
      cases hok
    · obtain ⟨conn', h, hrest⟩ := hrun conn henough
      rw [h] at hok
      obtain ⟨more, hmore, hsplit⟩ :=
        (hnext _ (List.length_take_of_le henough)).sound conn' conn'' hok
      refine ⟨conn.stream.take len ++ more, ⟨_, more, List.length_take_of_le henough, rfl, hmore⟩,
        ?_⟩
      rw [List.append_assoc, ← hsplit, hrest, List.take_append_drop]
  · rintro conn word rest ⟨got, more, hlen, rfl, hmore⟩ hstream
    rw [List.append_assoc] at hstream
    have henough : len ≤ conn.stream.length := by
      rw [hstream, List.length_append, hlen]
      exact Nat.le_add_right _ _
    obtain ⟨conn', h, hrest⟩ := hrun conn henough
    have htake : conn.stream.take len = got := by
      rw [hstream]
      exact List.take_left' hlen
    have hdrop : conn'.stream = more ++ rest := by
      rw [hrest, hstream]
      exact List.drop_left' hlen
    rw [h, htake]
    exact (hnext got hlen).complete conn' more rest hmore hdrop

end Consumes

/-- The bytes that the proxy sends when it has connected: the answer to the greeting, then version,
status, a reserved byte and the type of the address, then the address and the port. -/
inductive IsSocksReply : Bytes → Prop
  | ipv4 (rsv : UInt8) (addr port : Bytes) (haddr : addr.length = 4) (hport : port.length = 2) :
      IsSocksReply ([0x05, 0x00] ++ [0x05, 0x00, rsv, 0x01] ++ addr ++ port)
  | ipv6 (rsv : UInt8) (addr port : Bytes) (haddr : addr.length = 16) (hport : port.length = 2) :
      IsSocksReply ([0x05, 0x00] ++ [0x05, 0x00, rsv, 0x04] ++ addr ++ port)
  | domain (rsv dlen : UInt8) (addr port : Bytes) (haddr : addr.length = dlen.toNat)
      (hport : port.length = 2) :
      IsSocksReply ([0x05, 0x00] ++ [0x05, 0x00, rsv, 0x03] ++ dlen :: addr ++ port)

/-- The calls beside the reads succeed, and the path of the proxy fits. -/
structure SocksEnv.Ok (E : SocksEnv) (onionAddr : Bytes) (port : UInt16) (socksPath : Bytes) :
    Prop where
  socket : E.socket = true
  path : socksPath.length < sunPathSize
  connect : E.connect = true
  greeting : E.writeFull socksGreeting = true
  request : E.writeFull (socksRequest onionAddr port) = true
  getfl : E.getfl = true
  setfl : E.setfl = true

section Reply

variable {P : Primitives} {E : SocksEnv}

/-- The descriptor can be made non-blocking. -/
def SocksEnv.Unblocks (E : SocksEnv) : Prop :=
  E.getfl = true ∧ E.setfl = true

theorem socksFinish_consumes
    (E : SocksEnv) :
    Consumes (socksFinish E) fun word => word = [] ∧ E.Unblocks := by
  unfold socksFinish SocksEnv.Unblocks
  cases E.getfl with
  | false =>
      exact (Consumes.fail .net).congr (by simp)
  | true =>
      cases E.setfl with
      | false =>
          exact (Consumes.fail .net).congr (by simp)
      | true =>
          refine ⟨fun conn => ⟨_, _, rfl⟩, ?_, ?_⟩
          · intro conn conn' h
            cases h
            exact ⟨[], ⟨rfl, rfl, rfl⟩, rfl⟩
          · rintro conn word rest ⟨rfl, -⟩ hstream
            exact ⟨conn, rfl, hstream⟩

/-- The drain buffer holds every address and port. -/
theorem drain_consumes
    (E : SocksEnv) {n : Nat} (hn : n ≤ 258) :
    Consumes (readOrFail drainBuf n fun _ => socksFinish E) fun word =>
      word.length = n ∧ E.Unblocks := by
  have hroom : n ≤ drainBuf.length := by
    rw [drainBuf, List.length_replicate]
    exact hn
  refine (Consumes.read hroom fun _ _ => socksFinish_consumes E).congr fun word => ?_
  constructor
  · rintro ⟨got, more, hlen, rfl, rfl, hfin⟩
    rw [List.append_nil]
    exact ⟨hlen, hfin⟩
  · rintro ⟨hlen, hfin⟩
    exact ⟨word, [], hlen, (List.append_nil _).symm, rfl, hfin⟩

/-- What follows the type of the address. -/
inductive IsBound : UInt8 → Bytes → Prop
  | ipv4 (word : Bytes) (h : word.length = 4 + 2) : IsBound 0x01 word
  | ipv6 (word : Bytes) (h : word.length = 16 + 2) : IsBound 0x04 word
  | domain (dlen : UInt8) (word : Bytes) (h : word.length = dlen.toNat + 2) :
      IsBound 0x03 (dlen :: word)

theorem isBound_iff
    (atyp : UInt8) (word : Bytes) :
    IsBound atyp word ↔
      if atyp = 0x01 then word.length = 4 + 2
      else if atyp = 0x04 then word.length = 16 + 2
      else if atyp = 0x03 then ∃ dlen more, word = dlen :: more ∧ more.length = dlen.toNat + 2
      else False := by
  constructor
  · intro h
    cases h with
    | ipv4 _ h =>
        exact h
    | ipv6 _ h =>
        exact h
    | domain dlen more h =>
        exact ⟨dlen, more, rfl, h⟩
  · split_ifs with h1 h4 h3
    · rintro h
      rw [h1]
      exact .ipv4 word h
    · intro h
      rw [h4]
      exact .ipv6 word h
    · rintro ⟨dlen, more, rfl, h⟩
      rw [h3]
      exact .domain dlen more h
    · exact False.elim

theorem domain_consumes
    (E : SocksEnv) :
    Consumes (readOrFail [0] 1 fun dlen =>
        readOrFail drainBuf ((dlen.headD 0).toNat + 2) fun _ => socksFinish E) fun word =>
      (∃ dlen more, word = dlen :: more ∧ more.length = dlen.toNat + 2) ∧ E.Unblocks := by
  refine (Consumes.read (S := fun got more => more.length = (got.headD 0).toNat + 2 ∧ E.Unblocks)
    (Nat.le_refl 1) ?_).congr fun word => ?_
  · intro got hlen
    rw [show ([0] : Bytes).drop 1 = [] from rfl, List.append_nil]
    refine drain_consumes E ?_
    have hlt := (got.headD 0).toNat_lt
    omega
  · constructor
    · rintro ⟨got, more, hlen, rfl, hmore, hfin⟩
      obtain ⟨dlen, rfl⟩ := List.length_eq_one_iff.mp hlen
      exact ⟨⟨dlen, more, rfl, hmore⟩, hfin⟩
    · rintro ⟨⟨dlen, more, rfl, hmore⟩, hfin⟩
      exact ⟨[dlen], more, rfl, rfl, hmore, hfin⟩

theorem socksDrain_consumes
    (E : SocksEnv) (atyp : UInt8) :
    Consumes (socksDrain E atyp) fun word => IsBound atyp word ∧ E.Unblocks := by
  unfold socksDrain
  refine (Consumes.ite (fun _ => drain_consumes E (by decide)) fun _ =>
    Consumes.ite (fun _ => drain_consumes E (by decide)) fun _ =>
      Consumes.ite (fun _ => domain_consumes E) fun _ => Consumes.fail .net).congr fun word => ?_
  rw [isBound_iff]
  split_ifs <;> simp

theorem socksResponse_consumes
    (E : SocksEnv) :
    Consumes (socksResponse E) fun word =>
      ∃ rsv atyp more, word = [0x05, 0x00, rsv, atyp] ++ more ∧ IsBound atyp more ∧
        E.Unblocks := by
  unfold socksResponse
  refine (Consumes.read (Nat.le_refl 4) fun got _ =>
    Consumes.ite (fun _ => Consumes.fail .net) fun _ => socksDrain_consumes E _).congr fun word => ?_
  constructor
  · rintro ⟨got, more, hlen, rfl, hmore⟩
    obtain ⟨ver, rep, rsv, atyp, rfl⟩ := List.length_eq_four.mp hlen
    split_ifs at hmore with hbad
    simp only [List.cons_append, List.getD_cons_zero, List.getD_cons_succ, not_or, not_not]
      at hbad hmore
    obtain ⟨rfl, rfl⟩ := hbad
    exact ⟨rsv, atyp, more, rfl, hmore⟩
  · rintro ⟨rsv, atyp, more, rfl, hmore⟩
    refine ⟨[0x05, 0x00, rsv, atyp], more, rfl, rfl, ?_⟩
    rw [if_neg (by simp)]
    exact hmore

/-- Address and port, cut into the two. -/
theorem isSocksReply_iff
    (word : Bytes) :
    IsSocksReply word ↔
      ∃ rsv atyp more, word = [0x05, 0x00] ++ ([0x05, 0x00, rsv, atyp] ++ more) ∧
        IsBound atyp more := by
  constructor
  · intro h
    cases h with
    | ipv4 rsv addr port haddr hport =>
        exact ⟨rsv, 0x01, addr ++ port, by simp, .ipv4 _ (by simp [haddr, hport])⟩
    | ipv6 rsv addr port haddr hport =>
        exact ⟨rsv, 0x04, addr ++ port, by simp, .ipv6 _ (by simp [haddr, hport])⟩
    | domain rsv dlen addr port haddr hport =>
        exact ⟨rsv, 0x03, dlen :: (addr ++ port), by simp, .domain dlen _ (by simp [haddr, hport])⟩
  · rintro ⟨rsv, atyp, more, rfl, hbound⟩
    cases hbound with
    | ipv4 _ h =>
        have hreply := IsSocksReply.ipv4 rsv (more.take 4) (more.drop 4) (by simp [h]) (by simp [h])
        rwa [List.append_assoc, List.take_append_drop, List.append_assoc] at hreply
    | ipv6 _ h =>
        have hreply := IsSocksReply.ipv6 rsv (more.take 16) (more.drop 16) (by simp [h])
          (by simp [h])
        rwa [List.append_assoc, List.take_append_drop, List.append_assoc] at hreply
    | domain dlen more h =>
        have hreply := IsSocksReply.domain rsv dlen (more.take dlen.toNat) (more.drop dlen.toNat)
          (by simp [h]) (by simp [h])
        simpa using hreply

/-- The greeting and the reply to it, then the request and the reply to it. -/
theorem dialogue_consumes
    {onionAddr : Bytes} (port : UInt16) (hvalid : validateOnionAddress P onionAddr = true) :
    Consumes (readOrFail [0, 0] 2 fun gresp =>
      if gresp.getD 0 0 ≠ 0x05 ∨ gresp.getD 1 0 ≠ 0x00 then socksFail .net
      else if !validateOnionAddress P onionAddr then socksFail .net
      else if !E.writeFull (socksRequest onionAddr port) then socksFail .io
      else socksResponse E) fun word =>
        E.writeFull (socksRequest onionAddr port) = true ∧ E.Unblocks ∧ IsSocksReply word := by
  refine (Consumes.read (Nat.le_refl 2) fun got _ =>
    Consumes.ite (fun _ => Consumes.fail .net) fun _ =>
      Consumes.ite (fun _ => Consumes.fail .net) fun _ =>
        Consumes.ite (fun _ => Consumes.fail .io) fun _ => socksResponse_consumes E).congr
          fun word => ?_
  rw [isSocksReply_iff, hvalid]
  constructor
  · rintro ⟨got, more, hlen, rfl, hmore⟩
    obtain ⟨ver, method, rfl⟩ := List.length_eq_two.mp hlen
    split_ifs at hmore with hbad hnever hrequest
    simp only [List.cons_append, List.getD_cons_zero, List.getD_cons_succ, not_or, not_not]
      at hbad
    obtain ⟨rfl, rfl⟩ := hbad
    obtain ⟨rsv, atyp, bound, rfl, hbound, hfin⟩ := hmore
    exact ⟨by simpa using hrequest, hfin, rsv, atyp, bound, rfl, hbound⟩
  · rintro ⟨hrequest, hfin, rsv, atyp, bound, rfl, hbound⟩
    refine ⟨[0x05, 0x00], [0x05, 0x00, rsv, atyp] ++ bound, rfl, rfl, ?_⟩
    rw [if_neg (by simp), if_neg (by simp), if_neg (by simp [hrequest])]
    exact ⟨rsv, atyp, bound, rfl, hbound, hfin⟩

theorem socks5Connect_consumes
    {onionAddr : Bytes} (port : UInt16) (socksPath : Bytes)
    (hvalid : validateOnionAddress P onionAddr = true) :
    Consumes (socks5Connect P E onionAddr port socksPath) fun word =>
      E.Ok onionAddr port socksPath ∧ IsSocksReply word := by
  unfold socks5Connect
  refine (Consumes.ite (fun _ => Consumes.fail .net) fun _ =>
    Consumes.ite (fun _ => Consumes.fail .config) fun _ =>
      Consumes.ite (fun _ => Consumes.fail .net) fun _ =>
        Consumes.ite (fun _ => Consumes.fail .io) fun _ => dialogue_consumes port hvalid).congr
          fun word => ?_
  constructor
  · intro h
    split_ifs at h with hsocket hpath hconnect hgreeting
    obtain ⟨hrequest, ⟨hgetfl, hsetfl⟩, hreply⟩ := h
    exact ⟨⟨by simpa using hsocket, Nat.lt_of_not_le hpath, by simpa using hconnect,
      by simpa using hgreeting, hrequest, hgetfl, hsetfl⟩, hreply⟩
  · rintro ⟨hok, hreply⟩
    rw [if_neg (by simp [hok.socket]), if_neg (Nat.not_le_of_lt hok.path),
      if_neg (by simp [hok.connect]), if_neg (by simp [hok.greeting])]
    exact ⟨hok.request, ⟨hok.getfl, hok.setfl⟩, hreply⟩

end Reply

/--
For every stream of the proxy, however it is cut: the dialogue ends without a write outside of its
buffers.  It succeeds exactly if the calls beside the reads succeed and the stream begins with a
reply, and then it has consumed this reply, so that the next byte is the first one of the peer.
-/
theorem socks5_reply_consumed
    (P : Primitives) (E : SocksEnv) (onionAddr : Bytes) (port : UInt16) (socksPath : Bytes)
    (conn : SocksConn) (hvalid : validateOnionAddress P onionAddr = true) :
    ∃ res conn', socks5Connect P E onionAddr port socksPath conn = some (res, conn') ∧
      (res = .ok () ↔ E.Ok onionAddr port socksPath ∧
        ∃ reply rest, IsSocksReply reply ∧ conn.stream = reply ++ rest) ∧
      (res = .ok () → ∀ reply rest, IsSocksReply reply → conn.stream = reply ++ rest →
        conn'.stream = rest) := by
  have hconsumes := socks5Connect_consumes (E := E) port socksPath hvalid
  obtain ⟨res, conn', hrun⟩ := hconsumes.ends conn
  have hall : E.Ok onionAddr port socksPath → ∀ reply rest, IsSocksReply reply →
      conn.stream = reply ++ rest → res = .ok () ∧ conn'.stream = rest := by
    intro hok reply rest hreply hstream
    obtain ⟨conn1, hrun1, hrest⟩ := hconsumes.complete conn reply rest ⟨hok, hreply⟩ hstream
    obtain ⟨rfl, rfl⟩ : res = .ok () ∧ conn' = conn1 := by
      simpa using hrun.symm.trans hrun1
    exact ⟨rfl, hrest⟩
  have hsound : res = .ok () → E.Ok onionAddr port socksPath ∧
      ∃ reply rest, IsSocksReply reply ∧ conn.stream = reply ++ rest := by
    intro hres
    rw [hres] at hrun
    obtain ⟨word, ⟨hok, hword⟩, hstream⟩ := hconsumes.sound conn conn' hrun
    exact ⟨hok, word, conn'.stream, hword, hstream⟩
  refine ⟨res, conn', hrun, ⟨hsound, ?_⟩, ?_⟩
  · rintro ⟨hok, reply, rest, hreply, hstream⟩
    exact (hall hok reply rest hreply hstream).1
  · intro hres reply rest hreply hstream
    exact (hall (hsound hres).1 reply rest hreply hstream).2

/-- A proxy that answers with a name of three bytes, in pieces, and the first bytes of a peer. -/
def sampleSocks : SocksConn where
  events := [.data [0x05], .readEintr, .data [0x00, 0x05, 0x00], .pollEintr,
    .data [0x00, 0x03, 0x03, 0x61], .readEagain, .data [0x62, 0x63, 0x00, 0x50, 0x4e, 0x58]]

/-- All other calls succeed. -/
def sampleSocksEnv : SocksEnv :=
  { socket := true, connect := true, writeFull := fun _ => true, getfl := true, setfl := true }

/-- What is left of the stream are the bytes of the peer. -/
theorem socks5_reply_consumed_domain :
    ∃ conn', socks5Connect samplePrimitives sampleSocksEnv
        ([0x64] ++ List.replicate 50 0x61 ++ [0x63, 0x34, 0x33, 0x79, 0x64] ++ App.onionSuffix) 80
        [0x2f, 0x73] sampleSocks = some (.ok (), conn') ∧
      conn'.stream = [0x4e, 0x58] := by
  have hvalid : validateOnionAddress samplePrimitives
      ([0x64] ++ List.replicate 50 0x61 ++ [0x63, 0x34, 0x33, 0x79, 0x64] ++ App.onionSuffix) =
        true := by
    decide +kernel
  obtain ⟨res, conn', hrun, hiff, hrest⟩ := socks5_reply_consumed samplePrimitives sampleSocksEnv _
    80 [0x2f, 0x73] sampleSocks hvalid
  have hreply := IsSocksReply.domain 0x00 0x03 [0x61, 0x62, 0x63] [0x00, 0x50] rfl rfl
  have hres : res = .ok () :=
    hiff.mpr ⟨⟨rfl, by decide, rfl, rfl, rfl, rfl, rfl⟩, _, [0x4e, 0x58], hreply, rfl⟩
  refine ⟨conn', ?_, hrest hres _ _ hreply rfl⟩
  rw [hrun, hres]

end Net
end Noxtor
