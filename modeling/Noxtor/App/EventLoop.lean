import Noxtor.App.ProcessLine

/-!
# The event loop

`event_loop` of `event_loop.c` and the initial state of `main.c`.

An iteration of the loop sweeps the timeouts, checks on Tor, drains the receive buffers
and then handles what `epoll_wait` reported.  A run is a list of such parts in any order,
which covers every sequence of iterations.
-/

namespace Noxtor
namespace App

open ByteString Noise

/-- A part of the event loop.  `peer` is a report for a descriptor that is neither standard
input nor the listener, with its `EPOLLOUT` and `EPOLLIN` bits. -/
inductive AppEvent where
  | timeouts
  | torCheck
  | drain
  | line (text : Bytes)
  | accept
  | peer (fd : Nat) (out inp : Bool)
deriving DecidableEq

section Loop

variable (P : Primitives) (E : Env)

/-- Run a function on every slot, in the order of the array. -/
def forSlots (f : Slot → View → View) (s : AppState) : AppState :=
  slots.foldl (fun t i => t.onSlot i (f i)) s

/-- The handshake timeout. -/
def sweepHandshake (i : Slot) (v : View) : View :=
  if v.ps.state = .handshakeInit ∨ v.ps.state = .handshakeResp then
    if E.clock v.sh.tick - v.ps.handshakeStart > noxHandshakeTimeoutSec then
      (smDispatch P E i .handshakeTimeout
        (v.tickOn.uiPrintError "Akran ile handshake zaman aşımına uğradı." [])).2
    else v.tickOn
  else v

/-- The TOFU timeout. -/
def sweepTofu (i : Slot) (v : View) : View :=
  if v.ps.state = .tofuPending then
    if E.clock v.sh.tick - v.ps.tofuStart > noxTofuTimeoutSec then
      (smDispatch P E i .peerDisconnected
        (v.tickOn.uiPrintError "TOFU onay zaman aşımı — bağlantı temizlendi." [])).2
    else v.tickOn
  else v

/-- The timeout between two chunks of a file. -/
def sweepChunk (i : Slot) (v : View) : View :=
  if v.ps.rxFile.active then
    if fileTransferChunkExpired v.ps.rxFile.lastChunkTs (E.clock v.sh.tick)
        noxFileChunkTimeoutSec then
      let unlinked : List Effect :=
        if v.sh.downloadsDirFd ≥ 0 ∧ v.ps.rxFile.localName ≠ [] then
          [.fileUnlink i v.ps.rxFile.localName]
        else []
      let v1 := ((v.tickOn.uiPrintError "Dosya transferi zaman aşımı — sender sessiz." []).emit
        unlinked).setPs fun ps => { ps with rxFile := { fd := -1 } }
      if v1.ps.state = .fileRx then (smDispatch P E i .fileDone v1).2 else v1
    else v.tickOn
  else v

/-- The timeouts of an established session: idle, and half a frame. -/
def sweepIdle (i : Slot) (v : View) : View :=
  if v.ps.state = .active ∨ v.ps.state = .fileTx ∨ v.ps.state = .fileRx then
    let idle := E.clock v.sh.tick - v.ps.lastActive
    if idle > noxPeerIdleTimeoutSec then
      (smDispatch P E i .peerDisconnected
        (v.tickOn.uiPrintError "Bağlantı zaman aşımı — peer sessiz (idle)." [])).2
    else if v.ps.recv.length > 0 ∧ idle > noxHalfframeTimeoutSec ∧
        v.ps.recv.length < recvBufCapacity then
      (smDispatch P E i .peerDisconnected v.tickOn).2
    else v.tickOn
  else v

/-- The timeouts of one slot. -/
def sweepSlot (i : Slot) (v : View) : View :=
  if v.ps.fd = -1 ∧ v.ps.state = .idle then v
  else sweepIdle P E i (sweepChunk P E i (sweepTofu P E i (sweepHandshake P E i v)))

/-- Whether Tor is found dead, and the state after looking. -/
def torDead (sh : Shared) : Bool × Shared :=
  let sh1 := { sh with tick := sh.tick + 1 }
  if E.torSignal sh.tick then (true, sh1)
  else if sh.torPid > 0 ∧ E.time sh.tick - sh.lastTorCheck ≥ 5 then
    (E.torGone sh.tick, { sh1 with lastTorCheck := E.time sh.tick })
  else (false, sh1)

/-- `EV_TOR_DIED` for a slot in use. -/
def torDiedSlot (i : Slot) (v : View) : View :=
  if v.ps.fd ≥ 0 ∨ v.ps.state ≠ .idle then (smDispatch P E i .torDied v).2 else v

/-- The keys and the database are gone with Tor. -/
def torForget (sh : Shared) : Shared :=
  { sh with
    torCtrlFd := if sh.torCtrlFd ≥ 0 then -1 else sh.torCtrlFd
    torPid := 0
    dbOpen := if sh.ghostMode then sh.dbOpen else false
    myStaticPriv := none
    myStaticPub := none
    myOnionSeed := none }

/-- The Tor health check. -/
def torCheck (s : AppState) : AppState :=
  let r := torDead E s.sh
  let s1 := { s with sh := r.2 }
  if r.1 ∧ s1.sh.torPid > 0 then
    let s2 := forSlots (torDiedSlot P E) s1
    { s2 with sh := torForget s2.sh }.uiPrintError
      "Tor bağlantısı koptu — tüm anahtarlar silindi. Uygulamayı kapatıp yeniden başlatın." []
  else s1

/-- Frames that waited for a session. -/
def drainSlot (i : Slot) (v : View) : View :=
  if v.ps.session ≠ none ∧ v.ps.fd ≥ 0 ∧ v.ps.recv.length ≥ frameHeaderWireSize then
    processPeerFrames P E i v.ps.fd v
  else v

/-- An accepted connection in a free slot. -/
def acceptSlot (i : Slot) (peerFd : Nat) (v : View) : View :=
  let v1 := v.setPs fun ps => { ps with fd := peerFd }
  if !E.epollAdd v1.sh.tick then v1.tickOn.setPs fun ps => { ps with fd := -1 }
  else
    match sodiumMalloc E v1.tickOn with
    | (false, v2) => v2.setPs fun ps => { ps with hs := none, fd := -1 }
    | (true, v2) =>
        match handshakeInit P false v2.sh.myStaticPriv v2.sh.myStaticPub with
        | .error _ => v2.setPs fun ps => { ps with hs := none, fd := -1 }
        | .ok hs =>
            let v3 := (hsTicks (v2.setPs fun ps => { ps with
              hs := some hs
              handshakeStart := E.clock v2.sh.tick
              lastActive := E.clock (v2.sh.tick + 1) })).setSh fun sh =>
                { sh with hsInboundCount := sh.hsInboundCount + 1 }
            let v4 := (smDispatch P E i .peerAccepted v3).2
            (v4.setSh fun sh => { sh with
              activePeerIdx := if sh.activePeerIdx < 0 then i.val else sh.activePeerIdx
              }).uiPrintSystem "[*] gelen bağlantı — handshake bekleniyor" []

/-- The inbound budget: five handshakes in a window of sixty seconds. -/
def inboundWindow (now : Int) (sh : Shared) : Shared :=
  if now - sh.hsInboundWindowStart ≥ 60 then
    { sh with hsInboundCount := 0, hsInboundWindowStart := now }
  else sh

/-- The listener is readable. -/
def acceptPeer (s : AppState) : AppState :=
  let s1 := { s with sh := { s.sh with tick := s.sh.tick + 1 } }
  match E.accept s.sh.tick with
  | none => s1
  | some peerFd =>
      match freeSlot s1 with
      | none => s1
      | some i =>
          let sh2 := inboundWindow (E.clock s1.sh.tick) { s1.sh with tick := s1.sh.tick + 1 }
          let s2 := { s1 with sh := sh2 }
          if sh2.hsInboundCount ≥ 5 then
            s2.uiPrintError "Çok fazla gelen handshake denemesi — biraz bekleyin." []
          else s2.onSlot i (acceptSlot P E i peerFd)

/-- `find_peer_by_fd`. -/
def findPeerByFd (s : AppState) (fd : Nat) : Option Slot :=
  slots.find? fun i => (s.peers i).fd = fd

/-- The count `to_read` of the `EPOLLIN` branch. -/
def toRead (avail : Nat) (ps : PeerSession) : Nat :=
  let space := recvBufCapacity - ps.recv.length
  if space > avail ∧ avail > 0 then avail else space

/-- The `EPOLLIN` branch. -/
def readSlot (i : Slot) (fd : Nat) (v : View) : View :=
  let count := toRead (E.fionread v.sh.tick) v.ps
  let v1 := v.tickOn
  if count = 0 then
    let v2 := processPeerFrames P E i fd v1
    if v2.ps.fd ≥ 0 then (smDispatch P E i .peerDisconnected v2).2 else v2
  else
    match E.recv v1.sh.tick with
    | .data b =>
        if b.take count = [] then
          (smDispatch P E i .peerDisconnected (v1.tickOn.uiPrintSystem "[*] peer ayrıldı" [])).2
        else
          processPeerFrames P E i fd (touchLastActive E
            (v1.tickOn.setPs fun ps => { ps with recv := ps.recv ++ b.take count }))
    | .eagain => v1.tickOn
    | .eintr => v1.tickOn
    | .err =>
        (smDispatch P E i .peerDisconnected (v1.tickOn.uiPrintSystem "[*] peer ayrıldı" [])).2

/-- The `EPOLLOUT` branch. -/
def writeSlot (i : Slot) (v : View) : View :=
  if v.ps.txFile.active then fileTransferHandleTx P E i v else v

/-- A report of `epoll_wait` for a peer descriptor. -/
def peerReady (fd : Nat) (out inp : Bool) (s : AppState) : AppState :=
  match findPeerByFd s fd with
  | none => s
  | some i =>
      s.onSlot i fun v =>
        let v1 := if out then writeSlot P E i v else v
        if inp then readSlot P E i fd v1 else v1

/-- One part of the loop. -/
def appStep (s : AppState) : AppEvent → AppState
  | .timeouts => forSlots (sweepSlot P E) s
  | .torCheck => torCheck P E s
  | .drain => forSlots (drainSlot P E) s
  | .line text => processLine P E (cstr text) s
  | .accept => acceptPeer P E s
  | .peer fd out inp => peerReady P E fd out inp s

/-- A run of the application. -/
def appRun (s : AppState) (evs : List AppEvent) : AppState :=
  evs.foldl (appStep P E) s

/-- One iteration of `event_loop`; `ready` is what `epoll_wait` reported. -/
def loopIteration (ready : List AppEvent) (s : AppState) : AppState :=
  appRun P E s ([.timeouts, .torCheck, .drain] ++ ready)

/-- `event_loop`: iterations for as long as the program is running. -/
def eventLoop : List (List AppEvent) → AppState → AppState
  | [], s => s
  | ready :: rest, s =>
      if s.sh.running then eventLoop rest (loopIteration P E ready s) else s

end Loop

/-- What `main` has set up before the loop starts. -/
structure Config where
  staticPriv : Key
  staticPub : Key
  onionSeed : Key
  onionAddr : Bytes
  ghostMode : Bool
  torPid : Nat
  torCtrlFd : Int
  downloadsDirFd : Int
  dbOpen : Bool
deriving DecidableEq

/-- An unused slot, as `main` leaves it. -/
def emptySlot : PeerSession :=
  { fd := -1, tofuPeerFd := -1 }

/-- The state when the loop starts. -/
def initialState (c : Config) : AppState :=
  { peers := fun _ => emptySlot
    sh :=
      { myStaticPriv := some c.staticPriv
        myStaticPub := some c.staticPub
        myOnionSeed := some c.onionSeed
        onionAddr := c.onionAddr
        ghostMode := c.ghostMode
        torPid := c.torPid
        torCtrlFd := c.torCtrlFd
        downloadsDirFd := c.downloadsDirFd
        dbOpen := c.dbOpen } }

section Facts

variable {P : Primitives} {E : Env}

@[simp] theorem appRun_nil
    (s : AppState) :
    appRun P E s [] = s := by
  rfl

@[simp] theorem appRun_cons
    (s : AppState) (ev : AppEvent) (evs : List AppEvent) :
    appRun P E s (ev :: evs) = appRun P E (appStep P E s ev) evs := by
  rfl

theorem appRun_append
    (s : AppState) (evs evs' : List AppEvent) :
    appRun P E s (evs ++ evs') = appRun P E (appRun P E s evs) evs' := by
  exact List.foldl_append

/-- Every state the loop passes through is the state of a run. -/
theorem eventLoop_run
    (rounds : List (List AppEvent)) (s : AppState) :
    ∃ evs, eventLoop P E rounds s = appRun P E s evs := by
  induction rounds generalizing s with
  | nil =>
      exact ⟨[], rfl⟩
  | cons ready rest ih =>
      by_cases hrun : s.sh.running = true
      · obtain ⟨evs, hevs⟩ := ih (loopIteration P E ready s)
        refine ⟨[.timeouts, .torCheck, .drain] ++ ready ++ evs, ?_⟩
        rw [appRun_append, eventLoop, if_pos hrun, hevs, loopIteration]
      · exact ⟨[], by simp [eventLoop, hrun]⟩

end Facts

end App
end Noxtor
