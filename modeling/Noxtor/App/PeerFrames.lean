import Noxtor.App.Onion
import Noxtor.App.Sending
import Noxtor.App.FileTransfer

/-!
# The frame loop

`process_peer_frames` of `event_loop.c`.

One turn of the loop, `frameStep`, either stops or asks for another turn (`continue` or the
end of the body).  The functions it is made of follow the blocks of the source: the
framing, the handshake with its reply, the checks of the claim, the contact decision with
its three outcomes, and the TEXT and FILE frames of a session.
-/

namespace Noxtor
namespace App

open ByteString Noise

/-- How a turn of the frame loop ends. -/
inductive LoopStep where
  | stop (v : View)
  | next (v : View)
deriving DecidableEq

/-- The view a turn leaves. -/
def LoopStep.view : LoopStep → View
  | .stop v => v
  | .next v => v

/-- The memory that `sodium_malloc` hands out for a session, before it is filled. -/
def rawSession : NoiseSession :=
  let cs : CipherState :=
    { k := Block.ofBytes 32 (List.replicate 32 0xdb), n := 0xdbdbdbdbdbdbdbdb, hasKey := true }
  { tx := cs, rx := cs, remoteStatic := Block.ofBytes 32 (List.replicate 32 0xdb) }

section Frames

variable (P : Primitives) (E : Env) (i : Slot)

/-- What one handshake call takes from the environment. -/
def hsCallAt (tick : Nat) : HsCall :=
  { eph := E.keyPair tick, alloc1 := E.hkdfAlloc tick, alloc2 := E.hkdfAlloc (tick + 1) }

/-- Two answers of the environment have been used. -/
def hsTicks (v : View) : View :=
  v.tickOn.tickOn

/-- Print an error and dispatch `EV_HANDSHAKE_ERROR`. -/
def rejectHandshake (message : String) (v : View) : View :=
  (smDispatch P E i .handshakeError (v.uiPrintError message [])).2

/-- The reply of `process_peer_frames`, if it is our turn to write. -/
def handshakeReply (v : View) : Bool × View :=
  match v.ps.hs with
  | none => (false, v.faulted)
  | some hs =>
      if hs.msgIndex < 3 then
        match hsBuildClaimPayload P v.sh with
        | .error _ => (false, rejectHandshake P E i "Kimlik imzası oluşturulamadı" v)
        | .ok claim =>
            let v1 := hsTicks v
            match handshakeWrite P (hsCallAt E v.sh.tick) (.data claim)
                (some noiseMaxHandshakeLen) hs with
            | .error _ hs' =>
                (false, rejectHandshake P E i "Handshake yanıtı oluşturulamadı"
                  (v1.setPs fun ps => { ps with hs := some hs' }))
            | .ok msg hs' =>
                let v2 := v1.setPs fun ps => { ps with hs := some hs' }
                match sockWrite E i (frameBytes noxMsgCtrl v2.ps.txSeq msg) v2 with
                | (.ok n, v3) =>
                    if n ≠ frameHeaderWireSize + msg.length then
                      (false, rejectHandshake P E i "Handshake yanıtı gönderilemedi" v3)
                    else
                      (true, touchLastActive E
                        (v3.setPs fun ps => { ps with txSeq := ps.txSeq + 1 }))
                | (_, v3) => (false, rejectHandshake P E i "Handshake yanıtı gönderilemedi" v3)
      else (true, v)

/-- The known peer: the session comes up at once. -/
def sessionUp (onion name : Bytes) (session : NoiseSession) (v : View) : View :=
  let v1 := v.tickOn.setPs fun ps => { ps with
    session := some session
    hs := none
    txSeq := 0
    rxSeq := 0
    queueFlushed := false
    peerVerified := true
    tofuWasZeroKey := false
    lastActive := E.clock v.sh.tick }
  let v2 := (smDispatch P E i .sessionReady v1).2
  let peerOnion := strCopy noxOnionLen onion
  let v3 := v2.setPs fun ps => { ps with peerOnion := peerOnion }
  let v4 := v3.setSh fun sh => { sh with
    activePeerOnion := peerOnion
    log := sh.log ++ [.knownSession i peerOnion session.remoteStatic] }
  v4.uiPrintSystem "[✓] şifreli kanal kuruldu (%s)" [name]

/-- The stored key is the key of the handshake. -/
def knownPeer (hs : NoiseHandshake) (onion name : Bytes) (v : View) : View :=
  match sodiumMalloc E v with
  | (false, v1) =>
      (smDispatch P E i .arenaFail (v1.uiPrintError "Arena bellek hatası" [])).2
  | (true, v1) =>
      match handshakeSplit P (E.hkdfAlloc v1.sh.tick) hs with
      | .error _ hs' =>
          rejectHandshake P E i "session split başarısız"
            (v1.tickOn.setPs fun ps => { ps with hs := some hs', session := some rawSession })
      | .ok session _ => sessionUp P E i onion name session v1.tickOn

/-- The fields both TOFU branches fill in before they print. -/
def tofuFill (fd : Int) (onion name : Bytes) (key : Key) (zeroKey : Bool) (v : View) : View :=
  v.setPs fun ps => { ps with
    tofuPending := true
    tofuPeerFd := fd
    tofuWasZeroKey := zeroKey
    peerVerified := false
    tofuOnion := strCopy noxOnionLen onion
    tofuName := strCopy noxContactNameLen name
    tofuNewKey := key }

/-- `clock_gettime(&ps->tofu_start)` and `EV_HANDSHAKE_DONE`. -/
def tofuWait (v : View) : View :=
  (smDispatch P E i .handshakeDone
    (v.tickOn.setPs fun ps => { ps with tofuStart := E.clock v.sh.tick })).2

/-- The stored key differs from the key of the handshake. -/
def changedKey (fd : Int) (onion name : Bytes) (key : Key) (v : View) : View :=
  let v1 := tofuFill fd onion name key false (v.emit [.keyChanged i onion])
  let v2 := (v1.uiPrintError "[!] UYARI: AKRANIN ANAHTARI DEĞİŞMİŞ! (MITM RİSKİ)" []).uiPrintError
    "      Adres: %s" [onion]
  let v3 := (v2.uiPrintError "      Kayıtlı İsim: %s" [name]).uiPrintError
    "      Yeni Fingerprint: %s" [hex key.toList]
  let v4 := (v3.emit [.showFp i (hex key.toList)]).uiPrintError
    "  [?] Yeni anahtarı onaylıyor musunuz? (y/n): " []
  tofuWait P E i v4

/-- "peer_" and the first eight characters of the address. -/
def defaultName (onion : Bytes) : Bytes :=
  [0x70, 0x65, 0x65, 0x72, 0x5f] ++ onion.take 8

/-- There is no stored key: an unknown peer, or a contact without a key. -/
def newPeer (fd : Int) (onion name : Bytes) (placeholder : Bool) (key : Key) (v : View) : View :=
  let shown := strCopy noxContactNameLen
    (if placeholder ∧ name ≠ [] then name else defaultName onion)
  let v1 := tofuFill fd onion shown key placeholder (v.emit [.newPeer i onion])
  let v2 := (v1.uiPrintSystem "[!] TOFU: Yeni peer bağlantısı" []).uiPrintSystem
    "      Adres: %s" [onion]
  let v3 := (v2.uiPrintSystem "      Fingerprint: %s" [hex key.toList]).emit
    [.showFp i (hex key.toList)]
  let v4 := v3.uiPrintSystem
    "  [?] Bu bağlantıyı onaylıyor ve rehbere kaydediyor musunuz? (y/n): " []
  let v5 :=
    if placeholder then
      (v4.uiPrintError
        "[!] DİKKAT: Bu onion rehberinizde '%s' olarak kayıtlı ama anahtarı henüz doğrulanmadı."
        [shown]).uiPrintError
        "    İlk bağlantı anahtarı kalıcı olarak bağlayacak — bu işlemi SİZ başlatmadıysanız MITM olabilir."
        []
    else v4
  tofuWait P E i v5

/-- The contact lookup; ghost mode does not look. -/
def contactLookup (onion : Bytes) (v : View) : Except NoxErr (Bytes × Key) × View :=
  if v.sh.ghostMode then (.error .db, v)
  else
    let r := dbGetContact E onion v.sh
    (r.1, { v with sh := r.2 })

/-- The contact decision for an authenticated claim. -/
def contactDecision (fd : Int) (hs : NoiseHandshake) (onion : Bytes) (v : View) : View :=
  match contactLookup E onion (v.emit [.claim i onion hs.rs]) with
  | (.error _, v1) => newPeer P E i fd onion [] false hs.rs v1
  | (.ok (name, stored), v1) =>
      if stored = Block.zero 32 then newPeer P E i fd onion name true hs.rs v1
      else if stored = hs.rs then knownPeer P E i hs onion name v1
      else changedKey P E i fd onion name hs.rs v1

/-- The checks of the claim, in the order of the source. -/
def completeHandshake (fd : Int) (pl : Bytes) (hs : NoiseHandshake) (v : View) : View :=
  if ¬ (pl.length = noxHsPayloadV1Len ∧ pl.head? = some noxHsPayloadV1Ver) then
    rejectHandshake P E i "Akran geçerli bir adres iletmedi (sürüm uyuşmuyor)" v
  else if validateOnionAddress P (claimOnion pl) = false then
    (smDispatch P E i .handshakeError v).2
  else if cryptoOnionVerify P (claimSig pl) (claimOnion pl) hs.rs ≠ .ok () then
    rejectHandshake P E i "Peer kimlik doğrulaması başarısız — bağlantı reddedildi" v
  else if v.ps.connectTarget ≠ [] ∧ claimOnion pl ≠ v.ps.connectTarget then
    rejectHandshake P E i "BAĞLANTI REDDEDİLDİ: onion adresi uyuşmuyor (MITM riski)" v
  else contactDecision P E i fd hs (claimOnion pl) v

/-- The block behind `ps->hs->msg_index >= 3`. -/
def handshakeDone (fd : Int) (pl : Bytes) (v : View) : LoopStep :=
  match v.ps.hs with
  | none => .stop v.faulted
  | some hs =>
      if hs.msgIndex ≥ 3 then .next (completeHandshake P E i fd pl hs v) else .next v

/-- A CTRL frame while the handshake is running. -/
def handshakeFrame (fd : Int) (payload : Bytes) (hs : NoiseHandshake) (v : View) : LoopStep :=
  let v1 := hsTicks v
  match handshakeRead P (hsCallAt E v.sh.tick) (.data payload) (some noxHsPayloadV1Len) hs with
  | .error _ hs' =>
      .stop (rejectHandshake P E i "Akran ile handshake el sıkışması başarısız oldu."
        ((v1.setPs fun ps => { ps with hs := some hs' }).emit [.heard i none]))
  | .ok pl hs' =>
      match handshakeReply P E i ((v1.setPs fun ps => { ps with hs := some hs' }).emit
          [.heard i (some (pl, hs'.rs))]) with
      | (false, v2) => .stop v2
      | (true, v2) => handshakeDone P E i fd pl v2

/-- The first text of a session sends the queue, but only to a verified peer. -/
def flushOnFirst (v : View) : View :=
  if v.ps.queueFlushed = false ∧ v.sh.ghostMode = false then
    if v.ps.peerVerified = false then
      let v1 :=
        if v.ps.tofuWasZeroKey then
          v.uiPrintSystem
            "[!] Kuyruktaki mesajlar bu ilk TOFU onayı için GÖNDERİLMEDİ (güvenlik). Bir sonraki doğrulanmış bağlantıda iletilecek."
            []
        else
          v.uiPrintSystem "[!] Kuyruktaki mesajlar doğrulanmamış peer için bekletiliyor." []
      v1.setPs fun ps => { ps with queueFlushed := true }
    else
      dbProcessQueue P E i v.ps.peerOnion (v.setPs fun ps => { ps with queueFlushed := true })
  else v

/-- `ps->rx_seq++` and the time of the last activity. -/
def rxAdvance (v : View) : View :=
  touchLastActive E (v.setPs fun ps => { ps with rxSeq := ps.rxSeq + 1 })

/-- A TEXT frame with the expected sequence number. -/
def textFrame (payload : Bytes) (v : View) : View :=
  match sodiumMalloc E v with
  | (false, v1) => v1
  | (true, v1) =>
      let opened := noiseDecrypt P v1.ps.session (.data payload) true
      let v2 := v1.setPs fun ps => { ps with session := opened.2 }
      match opened.1 with
      | some (b :: pt) =>
          if (b :: pt).length ≤ payload.length then
            rxAdvance E (flushOnFirst P E i (v2.emit [.incoming i (b :: pt)]))
          else v2
      | _ => v2

/-- A FILE frame with the expected sequence number. -/
def fileFrame (payload : Bytes) (v : View) : View :=
  match fileTransferHandleRx P E i payload v with
  | (true, v1) => rxAdvance E v1
  | (false, v1) => v1

/-- A TEXT or FILE frame of a session. -/
def sessionFrame (fh : FrameHeader) (payload : Bytes) (v : View) : LoopStep :=
  if fh.seq ≠ v.ps.rxSeq then
    .stop (smDispatch P E i .seqMismatch (v.uiPrintError
      "Hata: Akran bağlantısında geçersiz sıra numarası algılandı (Replay Attack veya paket kaybı)!"
      [])).2
  else if fh.type = noxMsgText then .next (textFrame P E i payload v)
  else .next (fileFrame P E i payload v)

/-- What happens to a complete frame, once it is out of `recv_buf`. -/
def handleFrame (fd : Int) (fh : FrameHeader) (payload : Bytes) (v : View) : LoopStep :=
  if fh.type = noxMsgCtrl then
    match v.ps.hs with
    | none => .next v
    | some hs => if hs.msgIndex < 3 then handshakeFrame P E i fd payload hs v else .next v
  else if (fh.type = noxMsgText ∨ fh.type = noxMsgFile) ∧ v.ps.session ≠ none then
    sessionFrame P E i fh payload v
  else .next v

/-- Throw away what has been received. -/
def dropRecv (v : View) : View :=
  v.setPs fun ps => { ps with recv := [] }

/-- One turn of `process_peer_frames`. -/
def frameStep (fd : Int) (v : View) : LoopStep :=
  if v.ps.recv.length < frameHeaderWireSize then .stop v
  else
    match frameHeaderDecode v.ps.recv with
    | .error _ => .stop (dropRecv v)
    | .ok fh =>
        if fh.len.toNat = 0 ∨ fh.len.toNat > 4096 + noxMacLen then .stop (dropRecv v)
        else if v.ps.recv.length < frameHeaderWireSize + fh.len.toNat then .stop v
        else if (fh.type = noxMsgText ∨ fh.type = noxMsgFile) ∧ v.ps.session = none then .stop v
        else
          match sodiumMalloc E v with
          | (false, v1) => .stop (dropRecv v1)
          | (true, v1) =>
              handleFrame P E i fd fh
                ((v.ps.recv.drop frameHeaderWireSize).take fh.len.toNat)
                (v1.setPs fun ps =>
                  { ps with recv := ps.recv.drop (frameHeaderWireSize + fh.len.toNat) })

/-- The loop, with a bound on its turns. -/
def frameLoop (fd : Int) : Nat → View → View
  | 0, v => v
  | fuel + 1, v =>
      match frameStep P E i fd v with
      | .stop v1 => v1
      | .next v1 => frameLoop fd fuel v1

/-- `process_peer_frames`; every turn that goes on has consumed a frame. -/
def processPeerFrames (fd : Int) (v : View) : View :=
  frameLoop P E i fd (v.ps.recv.length + 1) v

end Frames

end App
end Noxtor
