import Noxtor.Noise.Handshake
import Mathlib.Logic.Function.Basic

/-!
# The state of the application

`struct peer_session`, `struct file_rx_state`, `struct file_tx_state` and the fields of
`struct app_state` that the event loop works on (`types.h`), the answers of the operating
system and of the database, and the log of what the program did.

Functions on one slot work on a `View`: the slot together with the shared state.  A C
string is the byte string in front of its NUL.
-/

namespace Noxtor
namespace App

open ByteString Noise

/-- An index into `peers[NOX_MAX_PEERS]`. -/
abbrev Slot := Fin noxMaxPeers

/-- The C string that starts a buffer. -/
def cstr (b : Bytes) : Bytes :=
  b.takeWhile (· ≠ 0)

/-- `strncpy(dst, src, n); dst[n] = 0`, and `snprintf(dst, n + 1, "%s", src)`. -/
def strCopy (n : Nat) (src : Bytes) : Bytes :=
  src.take n

/-- `peer_state_t`. -/
inductive PeerState where
  | idle
  | connecting
  | handshakeInit
  | handshakeResp
  | tofuPending
  | active
  | fileTx
  | fileRx
deriving DecidableEq, Repr

/-- `peer_event_t`. -/
inductive PeerEvent where
  | connectCmd
  | peerAccepted
  | handshakeMsg
  | handshakeDone
  | sessionReady
  | tofuAccepted
  | tofuRejected
  | peerDisconnected
  | handshakeTimeout
  | handshakeError
  | fileStart
  | fileRxStart
  | fileDone
  | rateLimit
  | seqMismatch
  | arenaFail
  | torDied
deriving DecidableEq, Repr

/-- `struct file_rx_state`; `hashState` is what the running hash has absorbed. -/
structure FileRx where
  active : Bool := false
  fd : Int := 0
  filename : Bytes := []
  expectedSize : Nat := 0
  receivedBytes : Nat := 0
  expectedHash : Block 32 := Block.zero 32
  hashState : Bytes := []
  lastChunkTs : Int := 0
  localName : Bytes := []
deriving DecidableEq

/--
`struct file_tx_state`.  `txBuf` is the part of `tx_buf` that holds a frame, so `tx_len`
is its length; `plainBuf` tells whether `plain_buf` is allocated.
-/
structure FileTx where
  active : Bool := false
  fd : Int := 0
  filename : Bytes := []
  totalSize : Nat := 0
  sentBytes : Nat := 0
  hash : Block 32 := Block.zero 32
  plainBuf : Bool := false
  txBuf : Bytes := []
  txOffset : Nat := 0
  currentChunkSize : Nat := 0
deriving DecidableEq

/-- `tx_len`. -/
def FileTx.txLen (tx : FileTx) : Nat :=
  tx.txBuf.length

/-- The bytes of `tx_buf` from `tx_offset` to `tx_len`. -/
def FileTx.pending (tx : FileTx) : Bytes :=
  tx.txBuf.drop tx.txOffset

/--
`struct peer_session`.  `recv` is the filled part of `recv_buf`, so `recv_pos` is its
length.  Times are the `tv_sec` of the monotonic clock.
-/
structure PeerSession where
  peerOnion : Bytes := []
  name : Bytes := []
  fd : Int := 0
  session : Option NoiseSession := none
  hs : Option NoiseHandshake := none
  handshakeStart : Int := 0
  txSeq : UInt32 := 0
  rxSeq : UInt32 := 0
  queueFlushed : Bool := false
  state : PeerState := .idle
  connectTarget : Bytes := []
  tofuPending : Bool := false
  tofuPeerFd : Int := 0
  tofuNewKey : Key := Block.zero 32
  tofuOnion : Bytes := []
  tofuName : Bytes := []
  tofuStart : Int := 0
  tofuWasZeroKey : Bool := false
  tofuEpoch : Nat := 0
  peerVerified : Bool := false
  recv : Bytes := []
  lastActive : Int := 0
  rxFile : FileRx := {}
  txFile : FileTx := {}
  unreadCount : Nat := 0
deriving DecidableEq

/-- Where the answerable snapshot of a TOFU prompt was written. -/
inductive ArmSource where
  | prompt
  | answer
deriving DecidableEq, Repr

/--
What an observer of the program sees, in order.  `dialled` is a connection of `/connect`
right before its first message, and `heard` what a handshake message of the peer was read as:
its payload and the static key of the peer, or nothing.  `fileRecord` is a decrypted FILE
payload at the point where `file_transfer_handle_rx` starts to interpret it, `claim` a
claim that has passed every check, and `teardown` a run of `action_cleanup`.  `knownSession`,
`keyChanged` and `newPeer` are the three outcomes of the contact decision, and `tofuSession`
is a session that the user has accepted.
`dbGetContact` is a lookup with the row it found, `dbListContacts` a listing with the addresses
and names it went through, and `dbProcessQueue` the texts that `db_process_queue` has taken from
the queue of an address.  `queueSend` is one of these texts when it is handed to
`send_queued_callback`, with the remote key of the slot's session.  `Noxtor.App.DatabaseRun` says
what the effects of the database have to do with the functions of `database.c`.
`fileDone` is the report that a file has been received.
-/
inductive Effect where
  | dialled (i : Slot) (target : Bytes)
  | heard (i : Slot) (message : Option (Bytes × Key))
  | sent (i : Slot) (bytes : Bytes)
  | incoming (i : Slot) (plaintext : Bytes)
  | fileRecord (i : Slot) (plaintext : Bytes)
  | claim (i : Slot) (onion : Bytes) (key : Key)
  | showFp (i : Slot) (hex : Bytes)
  | tofuPrompt (i : Slot) (epoch : Nat) (key : Key)
  | arm (source : ArmSource) (epoch : Nat) (key : Key)
  | knownSession (i : Slot) (onion : Bytes) (remote : Key)
  | keyChanged (i : Slot) (onion : Bytes)
  | newPeer (i : Slot) (onion : Bytes)
  | tofuSession (i : Slot) (remote : Key)
  | teardown (i : Slot)
  | dbGetContact (onion : Bytes) (row : Option (Bytes × Key))
  | dbAddContact (onion name : Bytes) (key : Key)
  | dbListContacts (rows : List (Bytes × Bytes))
  | dbProcessQueue (onion : Bytes) (texts : List Bytes)
  | queueSend (i : Slot) (onion text : Bytes) (remote : Option Key)
  | dbQueueMessage (onion text : Bytes)
  | dbQueueRollback (onion : Bytes) (count : Nat)
  | fileCreate (i : Slot) (name : Bytes)
  | fileWrite (i : Slot) (name bytes : Bytes)
  | fileUnlink (i : Slot) (name : Bytes)
  | fileDone (i : Slot) (name : Bytes)
deriving DecidableEq

/-- The calls of the user interface that print a line. -/
inductive UiKind where
  | system
  | error
  | outgoing
  | progress
deriving DecidableEq, Repr

/-- The bytes of an ASCII text. -/
def ascii (text : String) : Bytes :=
  text.toList.map fun c => UInt8.ofNat c.toNat

/-- A number in decimal digits. -/
def decimal (n : Nat) : Bytes :=
  (Nat.toDigits 10 n).map fun c => UInt8.ofNat c.toNat

/-- A printed line: the format and what is filled in, without the texts of `strerror`. -/
structure UiLine where
  kind : UiKind
  text : String
  args : List Bytes
deriving DecidableEq

/--
The fields of `struct app_state` beside the slots, the `ready` flag of the database
(`dbOpen`), and what the run has done so far.  `tick` counts the answers taken from the
environment, and `fault` is set where the code would follow a NULL `ps->hs`.
-/
structure Shared where
  activePeerIdx : Int := -1
  activePeerOnion : Bytes := []
  myStaticPriv : Option Key := none
  myStaticPub : Option Key := none
  myOnionSeed : Option Key := none
  onionAddr : Bytes := []
  ghostMode : Bool := false
  running : Bool := true
  torPid : Nat := 0
  torCtrlFd : Int := -1
  lastTorCheck : Int := 0
  hsAttemptCount : Nat := 0
  hsWindowStart : Int := 0
  hsInboundCount : Nat := 0
  hsInboundWindowStart : Int := 0
  tofuEpoch : Nat := 0
  tofuPromptEpoch : Nat := 0
  tofuPromptFp : Key := Block.zero 32
  downloadsDirFd : Int := -1
  dbOpen : Bool := false
  tick : Nat := 0
  log : List Effect := []
  ui : List UiLine := []
  fault : Bool := false
deriving DecidableEq

/-- One slot and the shared state. -/
structure View where
  ps : PeerSession
  sh : Shared
deriving DecidableEq

/-- `struct app_state`. -/
structure AppState where
  peers : Slot → PeerSession
  sh : Shared

/-- The result of a `write`, `writev` or `read` that transfers a count of bytes. -/
inductive IoResult where
  | ok (n : Nat)
  | eagain
  | eintr
  | err
deriving DecidableEq, Repr

/-- The result of a `read` or `recv`, with the bytes. -/
inductive ReadResult where
  | data (bytes : Bytes)
  | eagain
  | eintr
  | err
deriving DecidableEq

/-- The result of an exclusive `openat`. -/
inductive OpenResult where
  | fd (fd : Nat)
  | eexist
  | err
deriving DecidableEq, Repr

/-- What `fstat` tells about a file. -/
structure FileStat where
  regular : Bool
  size : Int
deriving DecidableEq

/--
The answers of the world outside, one function of the tick for each kind of call.
`hashReads` are the reads of the loop that hashes a file, up to the end of the file or an
error; `fileWrites` are the writes of one `write_to_file`; `dbContacts` are the addresses and
names that `db_list_contacts` passes to its visitor, and `dbPending` the texts that
`db_process_queue` has for its callback.
-/
structure Env where
  malloc : Nat → Bool
  clock : Nat → Int
  time : Nat → Int
  random : Nat → UInt32
  keyPair : Nat → KeyPair
  hkdfAlloc : Nat → HkdfAlloc
  hashOk : Nat → Bool
  write : Nat → IoResult
  recv : Nat → ReadResult
  fionread : Nat → Nat
  accept : Nat → Option Nat
  epollAdd : Nat → Bool
  socks5Connect : Nat → Option Nat
  openFile : Nat → Option Nat
  fileStat : Nat → Option FileStat
  flock : Nat → Bool
  hashReads : Nat → List ReadResult
  lseek : Nat → Bool
  fileRead : Nat → ReadResult
  dirOk : Nat → Bool
  statvfs : Nat → Option (Nat × Nat)
  openat : Nat → OpenResult
  fileWrites : Nat → List IoResult
  dbGetContact : Nat → Bytes → Except NoxErr (Bytes × Key)
  dbAddContact : Nat → Except NoxErr Unit
  dbQueueMessage : Nat → Except NoxErr Unit
  dbPending : Nat → Bytes → List Bytes
  dbContacts : Nat → Except NoxErr (List (Bytes × Bytes))
  torSignal : Nat → Bool
  torGone : Nat → Bool

namespace View

/-- Change the slot. -/
def setPs (f : PeerSession → PeerSession) (v : View) : View :=
  { v with ps := f v.ps }

/-- Change the shared state. -/
def setSh (f : Shared → Shared) (v : View) : View :=
  { v with sh := f v.sh }

/-- An answer of the environment has been used. -/
def tickOn (v : View) : View :=
  v.setSh fun sh => { sh with tick := sh.tick + 1 }

/-- Record effects. -/
def emit (es : List Effect) (v : View) : View :=
  v.setSh fun sh => { sh with log := sh.log ++ es }

/-- Print a line. -/
def say (kind : UiKind) (text : String) (args : List Bytes) (v : View) : View :=
  v.setSh fun sh => { sh with ui := sh.ui ++ [⟨kind, text, args⟩] }

/-- `ui_print_error`. -/
def uiPrintError (text : String) (args : List Bytes) (v : View) : View :=
  v.say .error text args

/-- `ui_print_system`. -/
def uiPrintSystem (text : String) (args : List Bytes) (v : View) : View :=
  v.say .system text args

/-- A NULL handshake pointer has been followed. -/
def faulted (v : View) : View :=
  v.setSh fun sh => { sh with fault := true }

@[simp] theorem setPs_ps (f : PeerSession → PeerSession) (v : View) : (v.setPs f).ps = f v.ps := rfl
@[simp] theorem setPs_sh (f : PeerSession → PeerSession) (v : View) : (v.setPs f).sh = v.sh := rfl
@[simp] theorem setSh_ps (f : Shared → Shared) (v : View) : (v.setSh f).ps = v.ps := rfl
@[simp] theorem setSh_sh (f : Shared → Shared) (v : View) : (v.setSh f).sh = f v.sh := rfl
@[simp] theorem tickOn_ps (v : View) : v.tickOn.ps = v.ps := rfl
@[simp] theorem emit_ps (es : List Effect) (v : View) : (v.emit es).ps = v.ps := rfl
@[simp] theorem emit_log (es : List Effect) (v : View) :
    (v.emit es).sh.log = v.sh.log ++ es := rfl
@[simp] theorem tickOn_log (v : View) : v.tickOn.sh.log = v.sh.log := rfl
@[simp] theorem say_ps (k : UiKind) (t : String) (a : List Bytes) (v : View) :
    (v.say k t a).ps = v.ps := rfl
@[simp] theorem uiPrintError_ps (t : String) (a : List Bytes) (v : View) :
    (v.uiPrintError t a).ps = v.ps := rfl
@[simp] theorem uiPrintSystem_ps (t : String) (a : List Bytes) (v : View) :
    (v.uiPrintSystem t a).ps = v.ps := rfl
@[simp] theorem uiPrintError_log (t : String) (a : List Bytes) (v : View) :
    (v.uiPrintError t a).sh.log = v.sh.log := rfl
@[simp] theorem uiPrintSystem_log (t : String) (a : List Bytes) (v : View) :
    (v.uiPrintSystem t a).sh.log = v.sh.log := rfl

end View

section Calls

variable (E : Env)

/-- `sodium_malloc`. -/
def sodiumMalloc (v : View) : Bool × View :=
  (E.malloc v.sh.tick, v.tickOn)

/-- `clock_gettime(CLOCK_MONOTONIC, &ps->last_active)`. -/
def touchLastActive (v : View) : View :=
  v.tickOn.setPs fun ps => { ps with lastActive := E.clock v.sh.tick }

/--
`write` or `writev` on the socket of slot `i`.  The socket accepts a prefix of the data or
nothing.
-/
def sockWrite (i : Slot) (data : Bytes) (v : View) : IoResult × View :=
  match E.write v.sh.tick with
  | .ok n => (.ok (min n data.length), v.tickOn.emit [.sent i (data.take n)])
  | .eagain => (.eagain, v.tickOn)
  | .eintr => (.eintr, v.tickOn)
  | .err => (.err, v.tickOn)

/-- `db_get_contact`. -/
def dbGetContact (onion : Bytes) (sh : Shared) : Except NoxErr (Bytes × Key) × Shared :=
  if !sh.dbOpen then
    (.error .state, { sh with log := sh.log ++ [.dbGetContact onion none] })
  else
    (E.dbGetContact sh.tick onion, { sh with
      tick := sh.tick + 1
      log := sh.log ++ [.dbGetContact onion (E.dbGetContact sh.tick onion).toOption] })

/-- `db_add_contact`; the effect is the row that is written. -/
def dbAddContact (onion name : Bytes) (key : Key) (sh : Shared) : Except NoxErr Unit × Shared :=
  if !sh.dbOpen then (.error .state, sh)
  else if onion.length ≠ noxOnionLen ∨ name.length > noxContactNameLen then (.error .db, sh)
  else
    match E.dbAddContact sh.tick with
    | .error err => (.error err, { sh with tick := sh.tick + 1 })
    | .ok () =>
        (.ok (), { sh with
          tick := sh.tick + 1
          log := sh.log ++ [.dbAddContact onion name key] })

/-- `db_list_contacts`, with the addresses and names that the visitor is called with. -/
def dbListContacts (sh : Shared) : Except NoxErr (List (Bytes × Bytes)) × Shared :=
  if !sh.dbOpen then (.error .state, sh)
  else
    match E.dbContacts sh.tick with
    | .error err => (.error err, { sh with tick := sh.tick + 1 })
    | .ok rows =>
        (.ok rows, { sh with
          tick := sh.tick + 1
          log := sh.log ++ [.dbListContacts rows] })

/-- `db_queue_message`. -/
def dbQueueMessage (onion text : Bytes) (sh : Shared) : Except NoxErr Unit × Shared :=
  if !sh.dbOpen then (.error .state, sh)
  else if text.length > 4095 then (.error .db, sh)
  else
    match E.dbQueueMessage sh.tick with
    | .error err => (.error err, { sh with tick := sh.tick + 1 })
    | .ok () =>
        (.ok (), { sh with
          tick := sh.tick + 1
          log := sh.log ++ [.dbQueueMessage onion text] })

/-- `db_queue_rollback_last`. -/
def dbQueueRollbackLast (onion : Bytes) (count : Nat) (sh : Shared) : Shared :=
  if !sh.dbOpen then sh
  else { sh with log := sh.log ++ [.dbQueueRollback onion count] }

end Calls

namespace AppState

/-- Slot `i` of the state. -/
def view (s : AppState) (i : Slot) : View :=
  { ps := s.peers i, sh := s.sh }

/-- Put a slot and the shared state back. -/
def put (s : AppState) (i : Slot) (v : View) : AppState :=
  { peers := Function.update s.peers i v.ps, sh := v.sh }

/-- Run a function on slot `i`. -/
def onSlot (s : AppState) (i : Slot) (f : View → View) : AppState :=
  s.put i (f (s.view i))

/-- `ACTIVE_PEER`. -/
def activePeer (s : AppState) : Option Slot :=
  if h : 0 ≤ s.sh.activePeerIdx ∧ s.sh.activePeerIdx.toNat < noxMaxPeers then
    some ⟨s.sh.activePeerIdx.toNat, h.2⟩
  else none

/-- Print a line. -/
def say (s : AppState) (kind : UiKind) (text : String) (args : List Bytes) : AppState :=
  { s with sh := { s.sh with ui := s.sh.ui ++ [⟨kind, text, args⟩] } }

/-- `ui_print_error`. -/
def uiPrintError (s : AppState) (text : String) (args : List Bytes) : AppState :=
  s.say .error text args

/-- `ui_print_system`. -/
def uiPrintSystem (s : AppState) (text : String) (args : List Bytes) : AppState :=
  s.say .system text args

end AppState

/-- A world where every call succeeds, a write takes everything and nothing arrives. -/
def sampleEnv : Env :=
  { malloc := fun _ => true
    clock := fun _ => 100
    time := fun _ => 100
    random := fun _ => 0
    keyPair := fun _ => samplePair 4
    hkdfAlloc := fun _ => sampleAlloc
    hashOk := fun _ => true
    write := fun _ => .ok 65536
    recv := fun _ => .eagain
    fionread := fun _ => 0
    accept := fun _ => none
    epollAdd := fun _ => true
    socks5Connect := fun _ => none
    openFile := fun _ => some 9
    fileStat := fun _ => some ⟨true, 2⟩
    flock := fun _ => true
    hashReads := fun _ => [.data [1, 2], .data []]
    lseek := fun _ => true
    fileRead := fun _ => .data [1, 2]
    dirOk := fun _ => true
    statvfs := fun _ => some (4096, 1048576)
    openat := fun _ => .fd 10
    fileWrites := fun _ => [.ok 65536]
    dbGetContact := fun _ _ => .error .notFound
    dbAddContact := fun _ => .ok ()
    dbQueueMessage := fun _ => .ok ()
    dbPending := fun _ _ => []
    dbContacts := fun _ => .ok []
    torSignal := fun _ => false
    torGone := fun _ => false }

/-- A session with a peer whose key is 7, right after the handshake. -/
def sampleSession : NoiseSession :=
  { tx := { k := (samplePair 1).pub, n := 0, hasKey := true }
    rx := { k := (samplePair 2).pub, n := 0, hasKey := true }
    remoteStatic := (samplePair 7).pub }

/-- A slot in session. -/
def sampleView : View :=
  { ps := { fd := 5, session := some sampleSession, state := .active }
    sh := { downloadsDirFd := 4 } }

end App
end Noxtor
