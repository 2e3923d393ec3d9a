import Noxtor.App.Types

/-!
# The peer state machine

The transition table, the actions and `sm_dispatch` of `state_machine.c`.

An action returns the error of the source together with the view it leaves; the state
only moves when there is no error.  `action_tofu_accept` dispatches a disconnect of its
own, so `sm_dispatch` is defined by recursion on the depth of such calls; depth two is
always enough.
-/

namespace Noxtor
namespace App

open ByteString Noise

/-- `sm_state_name`. -/
def smStateName : PeerState → Bytes
  | .idle => ascii "IDLE"
  | .connecting => ascii "CONNECTING"
  | .handshakeInit => ascii "HANDSHAKE_INIT"
  | .handshakeResp => ascii "HANDSHAKE_RESP"
  | .tofuPending => ascii "TOFU_PENDING"
  | .active => ascii "ACTIVE"
  | .fileTx => ascii "FILE_TX"
  | .fileRx => ascii "FILE_RX"

/-- The action functions of the table. -/
inductive Action where
  | cleanup
  | connect
  | accept
  | hsProcess
  | tofuPrompt
  | tofuAccept
  | sessionUp
  | fileBegin
  | fileEnd
  | fileBeginRx
deriving DecidableEq, Repr

/-- `state_transition_t`. -/
structure Transition where
  source : PeerState
  event : PeerEvent
  target : PeerState
  action : Action
deriving DecidableEq, Repr

/-- `transitions`, in the order of the source; the first match counts. -/
def transitions : List Transition :=
  [ ⟨.idle, .connectCmd, .handshakeInit, .connect⟩,
    ⟨.idle, .peerAccepted, .handshakeResp, .accept⟩,
    ⟨.handshakeInit, .handshakeMsg, .handshakeInit, .hsProcess⟩,
    ⟨.handshakeResp, .handshakeMsg, .handshakeResp, .hsProcess⟩,
    ⟨.handshakeInit, .sessionReady, .active, .sessionUp⟩,
    ⟨.handshakeResp, .sessionReady, .active, .sessionUp⟩,
    ⟨.handshakeInit, .handshakeDone, .tofuPending, .tofuPrompt⟩,
    ⟨.handshakeResp, .handshakeDone, .tofuPending, .tofuPrompt⟩,
    ⟨.tofuPending, .tofuAccepted, .active, .tofuAccept⟩,
    ⟨.tofuPending, .tofuRejected, .idle, .cleanup⟩,
    ⟨.active, .fileStart, .fileTx, .fileBegin⟩,
    ⟨.active, .fileRxStart, .fileRx, .fileBeginRx⟩,
    ⟨.fileTx, .fileDone, .active, .fileEnd⟩,
    ⟨.fileRx, .fileDone, .active, .fileEnd⟩,
    ⟨.connecting, .peerDisconnected, .idle, .cleanup⟩,
    ⟨.handshakeInit, .peerDisconnected, .idle, .cleanup⟩,
    ⟨.handshakeResp, .peerDisconnected, .idle, .cleanup⟩,
    ⟨.tofuPending, .peerDisconnected, .idle, .cleanup⟩,
    ⟨.active, .peerDisconnected, .idle, .cleanup⟩,
    ⟨.fileTx, .peerDisconnected, .idle, .cleanup⟩,
    ⟨.fileRx, .peerDisconnected, .idle, .cleanup⟩,
    ⟨.handshakeInit, .handshakeTimeout, .idle, .cleanup⟩,
    ⟨.handshakeResp, .handshakeTimeout, .idle, .cleanup⟩,
    ⟨.handshakeInit, .handshakeError, .idle, .cleanup⟩,
    ⟨.handshakeResp, .handshakeError, .idle, .cleanup⟩,
    ⟨.active, .seqMismatch, .idle, .cleanup⟩,
    ⟨.fileTx, .seqMismatch, .idle, .cleanup⟩,
    ⟨.fileRx, .seqMismatch, .idle, .cleanup⟩,
    ⟨.handshakeInit, .arenaFail, .idle, .cleanup⟩,
    ⟨.handshakeResp, .arenaFail, .idle, .cleanup⟩,
    ⟨.idle, .torDied, .idle, .cleanup⟩,
    ⟨.connecting, .torDied, .idle, .cleanup⟩,
    ⟨.handshakeInit, .torDied, .idle, .cleanup⟩,
    ⟨.handshakeResp, .torDied, .idle, .cleanup⟩,
    ⟨.tofuPending, .torDied, .idle, .cleanup⟩,
    ⟨.active, .torDied, .idle, .cleanup⟩,
    ⟨.fileTx, .torDied, .idle, .cleanup⟩,
    ⟨.fileRx, .torDied, .idle, .cleanup⟩,
    ⟨.handshakeInit, .rateLimit, .idle, .cleanup⟩,
    ⟨.handshakeResp, .rateLimit, .idle, .cleanup⟩ ]

/-- The linear search of `sm_dispatch`. -/
def findTransition (st : PeerState) (ev : PeerEvent) : Option Transition :=
  transitions.find? fun t => t.source = st ∧ t.event = ev

/-- What a dispatch returns. -/
abbrev Result := Except NoxErr Unit × View

/-- The slot that `action_cleanup` leaves behind. -/
def cleanedSlot (ps : PeerSession) : PeerSession :=
  { ps with
    fd := if ps.fd ≥ 0 then -1 else ps.fd
    hs := none
    session := none
    txSeq := 0
    rxSeq := 0
    peerOnion := []
    connectTarget := []
    tofuPending := false
    tofuPeerFd := -1
    tofuWasZeroKey := false
    peerVerified := false
    lastActive := 0
    tofuOnion := []
    tofuName := []
    tofuNewKey := Block.zero 32
    queueFlushed := false
    rxFile := if ps.rxFile.active then { fd := -1 } else ps.rxFile
    txFile := if ps.txFile.active then { fd := -1 } else ps.txFile
    recv := []
    name := []
    unreadCount := 0 }

/-- The half-received file that `action_cleanup` deletes. -/
def unlinkPartial (i : Slot) (v : View) : List Effect :=
  if v.ps.rxFile.active ∧ v.sh.downloadsDirFd ≥ 0 ∧ v.ps.rxFile.localName ≠ [] then
    [.fileUnlink i v.ps.rxFile.localName]
  else []

/-- `action_cleanup`. -/
def actionCleanup (i : Slot) (v : View) : View :=
  { ps := cleanedSlot v.ps
    sh := { v.sh with
      log := v.sh.log ++ unlinkPartial i v ++ [.teardown i]
      activePeerIdx := if v.sh.activePeerIdx = i.val then -1 else v.sh.activePeerIdx
      activePeerOnion := if v.sh.activePeerIdx = i.val then [] else v.sh.activePeerOnion } }

/-- `action_tofu_prompt`: a new epoch, and the snapshot if none is waiting for an answer. -/
def actionTofuPrompt (i : Slot) (v : View) : View :=
  let epoch := v.sh.tofuEpoch + 1
  { ps := { v.ps with tofuEpoch := epoch }
    sh :=
      if v.sh.tofuPromptEpoch = 0 then
        { v.sh with
          tofuEpoch := epoch
          tofuPromptEpoch := epoch
          tofuPromptFp := v.ps.tofuNewKey
          log := v.sh.log ++
            [.tofuPrompt i epoch v.ps.tofuNewKey, .arm .prompt epoch v.ps.tofuNewKey] }
      else
        { v.sh with
          tofuEpoch := epoch
          log := v.sh.log ++ [.tofuPrompt i epoch v.ps.tofuNewKey] } }

section Dispatch

variable (P : Primitives) (E : Env) (i : Slot)

/-- The contact that `action_tofu_accept` stores, unless in ghost mode. -/
def tofuSaveContact (v : View) : View :=
  if v.sh.ghostMode then v
  else
    match dbAddContact E v.ps.tofuOnion v.ps.tofuName v.ps.tofuNewKey v.sh with
    | (.ok _, sh) => { v with sh := sh }
    | (.error _, sh) => ({ v with sh := sh } : View).uiPrintError "Rehbere kaydetme başarısız" []

/-- The end of `action_tofu_accept`: the session is in place. -/
def tofuSessionUp (session : NoiseSession) (v : View) : View :=
  let peerOnion := strCopy noxOnionLen v.ps.tofuOnion
  let v1 : View :=
    { ps := { v.ps with
        session := some session
        hs := none
        txSeq := 0
        rxSeq := 0
        queueFlushed := false
        peerVerified := false
        lastActive := E.clock v.sh.tick
        tofuPending := false
        peerOnion := peerOnion
        name := strCopy noxContactNameLen v.ps.tofuName }
      sh := { v.sh with
        tick := v.sh.tick + 1
        activePeerOnion := peerOnion
        log := v.sh.log ++ [.tofuSession i session.remoteStatic] } }
  v1.uiPrintSystem "[✓] şifreli kanal kuruldu (%s)" [v.ps.tofuName]

/-- `action_tofu_accept`; `disconnect` is its own call of `sm_dispatch`. -/
def actionTofuAccept (disconnect : View → Result) (v : View) : Result :=
  if v.ps.tofuEpoch ≠ v.sh.tofuPromptEpoch ∨ v.ps.tofuNewKey ≠ v.sh.tofuPromptFp then
    (.error .proto, v.uiPrintError
      "TOFU onay token'ı tutarsız — bağlantı reddedildi (slot yenilenmiş olabilir; fp tekrar kontrol edin)"
      [])
  else
    match v.ps.hs with
    | none =>
        (.error .proto, v.uiPrintError "Handshake durumu geçersiz (peer ayrılmış olabilir)" [])
    | some hs =>
        match sodiumMalloc E (tofuSaveContact E v) with
        | (false, v1) =>
            (.error .alloc, (disconnect (v1.uiPrintError "Arena bellek hatası" [])).2)
        | (true, v1) =>
            match handshakeSplit P (E.hkdfAlloc v1.sh.tick) hs with
            | .error _ hs' =>
                let v2 := v1.tickOn.setPs fun ps => { ps with hs := some hs', session := none }
                (.error .proto, (disconnect (v2.uiPrintError "session split başarısız" [])).2)
            | .ok session _ => (.ok (), tofuSessionUp E i session v1.tickOn)

/-- The call through the function pointer `t->action`. -/
def runAction (disconnect : View → Result) (action : Action) (v : View) : Result :=
  match action with
  | .cleanup => (.ok (), actionCleanup i v)
  | .tofuPrompt => (.ok (), actionTofuPrompt i v)
  | .tofuAccept => actionTofuAccept P E i disconnect v
  | .connect | .accept | .hsProcess | .sessionUp | .fileBegin | .fileEnd | .fileBeginRx =>
      (.ok (), v)

/-- `sm_dispatch` with at most `depth` nested dispatches. -/
def smDispatchDepth : Nat → PeerEvent → View → Result
  | 0, _, v => (.error .state, v)
  | depth + 1, ev, v =>
      match findTransition v.ps.state ev with
      | none => (.error .state, v)
      | some t =>
          match runAction P E i (smDispatchDepth depth .peerDisconnected) t.action v with
          | (.error err, v1) => (.error err, v1)
          | (.ok (), v1) => (.ok (), v1.setPs fun ps => { ps with state := t.target })

/-- `sm_dispatch`. -/
def smDispatch (ev : PeerEvent) (v : View) : Result :=
  smDispatchDepth P E i 2 ev v

end Dispatch

/-- The slot after a transition into `ST_IDLE`. -/
def tornDown (i : Slot) (v : View) : View :=
  (actionCleanup i v).setPs fun ps => { ps with state := .idle }

section Facts

variable {P : Primitives} {E : Env} {i : Slot}

/-- Every row into `ST_IDLE` cleans up, and no other row does. -/
theorem transitions_cleanup :
    ∀ t ∈ transitions, t.target = .idle ↔ t.action = .cleanup := by
  decide

theorem smDispatch_none
    {ev : PeerEvent} {v : View} (h : findTransition v.ps.state ev = none) :
    smDispatch P E i ev v = (.error .state, v) := by
  simp only [smDispatch, smDispatchDepth, h]

/-- A row that cleans up tears the slot down. -/
theorem smDispatch_torn
    {ev : PeerEvent} {v : View} {t : Transition}
    (h : findTransition v.ps.state ev = some t) (ht : t.action = .cleanup) :
    smDispatch P E i ev v = (.ok (), tornDown i v) := by
  have hmem : t ∈ transitions := List.mem_of_find?_eq_some h
  have hidle : t.target = .idle := (transitions_cleanup t hmem).mpr ht
  simp only [smDispatch, smDispatchDepth, h, ht, runAction, hidle, tornDown]

/-- An empty action only moves the state. -/
theorem smDispatch_move
    {ev : PeerEvent} {v : View} {t : Transition}
    (h : findTransition v.ps.state ev = some t)
    (ht : t.action = .connect ∨ t.action = .accept ∨ t.action = .sessionUp ∨
      t.action = .fileEnd ∨ t.action = .fileBeginRx) :
    smDispatch P E i ev v = (.ok (), v.setPs fun ps => { ps with state := t.target }) := by
  rcases ht with ht | ht | ht | ht | ht <;>
    simp only [smDispatch, smDispatchDepth, h, ht, runAction]

theorem smDispatch_prompt
    {ev : PeerEvent} {v : View} {t : Transition}
    (h : findTransition v.ps.state ev = some t) (ht : t.action = .tofuPrompt) :
    smDispatch P E i ev v =
      (.ok (), (actionTofuPrompt i v).setPs fun ps => { ps with state := t.target }) := by
  simp only [smDispatch, smDispatchDepth, h, ht, runAction]

/-- A disconnect tears down whatever is not idle. -/
theorem smDispatch_peerDisconnected
    (v : View) :
    smDispatch P E i .peerDisconnected v =
      if v.ps.state = .idle then (.error .state, v) else (.ok (), tornDown i v) := by
  cases hst : v.ps.state
  case idle =>
    rw [if_pos rfl]
    exact smDispatch_none (by rw [hst]; rfl)
  all_goals
    rw [if_neg (by decide)]
    exact smDispatch_torn (by rw [hst]; rfl) rfl

/-- The nested disconnect does not dispatch any further. -/
theorem smDispatchDepth_disconnect
    (depth : Nat) (v : View) :
    smDispatchDepth P E i (depth + 1) .peerDisconnected v =
      smDispatchDepth P E i 1 .peerDisconnected v := by
  cases hst : v.ps.state <;> simp only [smDispatchDepth, hst] <;> rfl

/-- Two levels of dispatch are enough. -/
theorem smDispatchDepth_stable
    (depth : Nat) (ev : PeerEvent) (v : View) :
    smDispatchDepth P E i (depth + 2) ev v = smDispatch P E i ev v := by
  have h : smDispatchDepth P E i (depth + 1) .peerDisconnected =
      smDispatchDepth P E i 1 .peerDisconnected := by
    funext u
    exact smDispatchDepth_disconnect depth u
  rw [smDispatch, smDispatchDepth, h]
  rfl

end Facts

end App
end Noxtor
