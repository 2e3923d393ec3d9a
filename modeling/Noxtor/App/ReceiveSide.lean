import Noxtor.App.FrameMoves

/-!
# The receiving side of a session

`RxView` keeps what the receiving side of a session depends on: the counter of the cipher,
the sequence number, the bytes in `recv_buf` and the records that were handed on.

The functions that run between two frames leave it alone or tear the slot down, the file
functions move the state at most, and `textFrame_*` and `fileFrame_*` say what a TEXT or
FILE frame with the expected sequence number does, by the outcome of its AEAD check.
-/

namespace Noxtor
namespace App

open ByteString Noise

/-- The records that slot `i` has handed on, with their types. -/
def delivered (i : Slot) (log : List Effect) : List (UInt8 × Bytes) :=
  log.filterMap fun
    | .incoming j pt => if j = i then some (noxMsgText, pt) else none
    | .fileRecord j pt => if j = i then some (noxMsgFile, pt) else none
    | _ => none

@[simp] theorem delivered_append
    (i : Slot) (l l' : List Effect) :
    delivered i (l ++ l') = delivered i l ++ delivered i l' := by
  exact List.filterMap_append

/-- The receiving side of a session. -/
structure RxView where
  state : PeerState
  fd : Int
  rx : Option CipherState
  hs : Option NoiseHandshake
  rxSeq : UInt32
  recv : Bytes
  delivered : List (UInt8 × Bytes)

/-- The receiving side of slot `i`. -/
def rxView (i : Slot) (v : View) : RxView :=
  { state := v.ps.state, fd := v.ps.fd, rx := v.ps.session.map NoiseSession.rx, hs := v.ps.hs
    rxSeq := v.ps.rxSeq, recv := v.ps.recv, delivered := delivered i v.sh.log }

/-- The receiving side of a slot that has been torn down. -/
def RxView.torn (a : RxView) : RxView :=
  { a with
    state := .idle
    fd := if a.fd ≥ 0 then -1 else a.fd
    rx := none
    hs := none
    rxSeq := 0
    recv := [] }

theorem RxView.torn_torn
    (a : RxView) :
    a.torn.torn = a.torn := by
  simp only [RxView.torn, RxView.mk.injEq, and_true, true_and]
  split <;> omega

/-- `ps->session->rx.n++`. -/
def RxView.nonceUsed (a : RxView) : RxView :=
  { a with rx := a.rx.map fun cs => { cs with n := cs.n + 1 } }

/-- `ps->rx_seq++`. -/
def RxView.counted (a : RxView) : RxView :=
  { a with rxSeq := a.rxSeq + 1 }

/-- Both counters move. -/
def RxView.advanced (a : RxView) : RxView :=
  a.nonceUsed.counted

/-- A record is handed on. -/
def RxView.handOn (a : RxView) (type : UInt8) (pt : Bytes) : RxView :=
  { a with delivered := a.delivered ++ [(type, pt)] }

section Views

variable {P : Primitives} {E : Env} {i : Slot} {v : View}

@[simp] theorem rxView_tickOn (v : View) : rxView i v.tickOn = rxView i v := rfl

@[simp] theorem rxView_say (k : UiKind) (t : String) (l : List Bytes) (v : View) :
    rxView i (v.say k t l) = rxView i v := rfl

@[simp] theorem rxView_uiPrintError (t : String) (l : List Bytes) (v : View) :
    rxView i (v.uiPrintError t l) = rxView i v := rfl

@[simp] theorem rxView_uiPrintSystem (t : String) (l : List Bytes) (v : View) :
    rxView i (v.uiPrintSystem t l) = rxView i v := rfl

@[simp] theorem rxView_touchLastActive (v : View) :
    rxView i (touchLastActive E v) = rxView i v := rfl

theorem rxView_emit
    {es : List Effect} (h : delivered i es = []) (v : View) :
    rxView i (v.emit es) = rxView i v := by
  simp [rxView, View.emit, View.setSh, h]

theorem rxView_incoming
    (pt : Bytes) (v : View) :
    rxView i (v.emit [.incoming i pt]) = (rxView i v).handOn noxMsgText pt := by
  simp [rxView, RxView.handOn, View.emit, View.setSh, delivered]

theorem rxView_fileRecord
    (pt : Bytes) (v : View) :
    rxView i (v.emit [.fileRecord i pt]) = (rxView i v).handOn noxMsgFile pt := by
  simp [rxView, RxView.handOn, View.emit, View.setSh, delivered]

theorem rxView_setPs
    {f : PeerSession → PeerSession}
    (h : (f v.ps).state = v.ps.state ∧ (f v.ps).fd = v.ps.fd ∧
      (f v.ps).session = v.ps.session ∧ (f v.ps).hs = v.ps.hs ∧
      (f v.ps).rxSeq = v.ps.rxSeq ∧ (f v.ps).recv = v.ps.recv) :
    rxView i (v.setPs f) = rxView i v := by
  simp [rxView, h]

theorem rxView_session
    (s : Option NoiseSession) (v : View) :
    rxView i (v.setPs fun ps => { ps with session := s }) =
      { rxView i v with rx := s.map NoiseSession.rx } := rfl

theorem delivered_unlinkPartial
    (v : View) :
    delivered i (unlinkPartial i v) = [] := by
  unfold unlinkPartial
  split <;> rfl

theorem rxView_tornDown
    (v : View) :
    rxView i (tornDown i v) = (rxView i v).torn := by
  have hlog : (tornDown i v).sh.log = v.sh.log ++ unlinkPartial i v ++ [.teardown i] := rfl
  have hdel : delivered i (tornDown i v).sh.log = delivered i v.sh.log := by
    rw [hlog, delivered_append, delivered_append, delivered_unlinkPartial]
    simp [delivered]
  simp only [rxView, RxView.torn, hdel]
  rfl

theorem rxView_sockWrite
    (data : Bytes) (v : View) :
    rxView i (sockWrite E i data v).2 = rxView i v := by
  unfold sockWrite
  cases E.write v.sh.tick with
  | ok n =>
      exact rxView_emit rfl v.tickOn
  | eagain =>
      rfl
  | eintr =>
      rfl
  | err =>
      rfl

end Views

section Sending

variable {P : Primitives} {E : Env} {i : Slot}

/-- Nothing happens to the receiving side, or the slot is torn down. -/
def KeptOrTorn (a b : RxView) : Prop :=
  b = a ∨ b = a.torn

theorem KeptOrTorn.trans
    {a b c : RxView} (h : KeptOrTorn a b) (h' : KeptOrTorn b c) :
    KeptOrTorn a c := by
  rcases h with rfl | rfl
  · exact h'
  · rcases h' with rfl | rfl
    · exact Or.inr rfl
    · exact Or.inr (RxView.torn_torn a)

theorem noiseEncrypt_rx
    (s : Option NoiseSession) (pt : Buf) (out : Bool) :
    (noiseEncrypt P s pt out).2.map NoiseSession.rx = s.map NoiseSession.rx := by
  cases s with
  | none =>
      rfl
  | some s =>
      simp only [noiseEncrypt]
      split_ifs <;> rfl

theorem peerDisconnected_rx
    (v : View) :
    KeptOrTorn (rxView i v) (rxView i (smDispatch P E i .peerDisconnected v).2) := by
  rw [smDispatch_peerDisconnected]
  by_cases h : v.ps.state = .idle
  · rw [if_pos h]
    exact Or.inl rfl
  · rw [if_neg h, rxView_tornDown]
    exact Or.inr rfl

theorem sendText_rx
    (pt : Bytes) (v : View) :
    KeptOrTorn (rxView i v) (rxView i (sendText P E i pt v).2) := by
  have hrx := noiseEncrypt_rx (P := P) v.ps.session (.data pt) true
  unfold sendText
  generalize noiseEncrypt P v.ps.session (.data pt) true = enc at hrx ⊢
  have h1 : ∀ session : Option NoiseSession,
      session.map NoiseSession.rx = v.ps.session.map NoiseSession.rx →
      rxView i (v.setPs fun ps => { ps with session := session }) = rxView i v := by
    intro session h
    rw [rxView_session, h]
    rfl
  obtain ⟨_ | ct, session⟩ := enc
  · exact Or.inl (h1 session hrx)
  specialize h1 session hrx
  dsimp only
  generalize (v.setPs fun ps => { ps with session := session }) = v1 at h1 ⊢
  have h2 := rxView_sockWrite (E := E) (i := i) (frameBytes noxMsgText v1.ps.txSeq ct) v1
  generalize sockWrite E i (frameBytes noxMsgText v1.ps.txSeq ct) v1 = w at h2 ⊢
  obtain ⟨r, v2⟩ := w
  rw [← h1, ← h2]
  cases r with
  | ok n =>
      dsimp only
      split
      · exact peerDisconnected_rx v2
      · exact Or.inl rfl
  | eagain =>
      exact peerDisconnected_rx v2
  | eintr =>
      exact peerDisconnected_rx v2
  | err =>
      exact peerDisconnected_rx v2

theorem sendQueuedCallback_rx
    (text : Bytes) (v : View) :
    KeptOrTorn (rxView i v) (rxView i (sendQueuedCallback P E i text v).2) := by
  unfold sendQueuedCallback
  split
  · exact Or.inl rfl
  split
  · exact Or.inl rfl
  unfold sodiumMalloc
  generalize E.malloc v.sh.tick = ok
  cases ok with
  | false =>
      exact Or.inl rfl
  | true =>
      exact sendText_rx _ v.tickOn

theorem flushQueue_rx
    (onion : Bytes) (texts : List Bytes) (v : View) :
    KeptOrTorn (rxView i v) (rxView i (flushQueue P E i onion texts v)) := by
  induction texts generalizing v with
  | nil =>
      exact Or.inl rfl
  | cons text texts ih =>
      unfold flushQueue
      dsimp only
      generalize hu : (v.emit [Effect.queueSend i onion text _]) = u
      have hview : rxView i u = rxView i v := by
        rw [← hu, rxView_emit (by rfl)]
      have h := sendQueuedCallback_rx (P := P) (E := E) (i := i) text u
      rw [hview] at h
      generalize sendQueuedCallback P E i text u = r at h ⊢
      obtain ⟨_ | _, v1⟩ := r
      · exact h
      · exact h.trans (ih v1)

/-- The queue that the first text of a session sends leaves the receiving side alone. -/
theorem flushOnFirst_rx
    (v : View) :
    KeptOrTorn (rxView i v) (rxView i (flushOnFirst P E i v)) := by
  have hflag : ∀ u : View,
      rxView i (u.setPs fun ps => { ps with queueFlushed := true }) = rxView i u :=
    fun u => rxView_setPs ⟨rfl, rfl, rfl, rfl, rfl, rfl⟩
  unfold flushOnFirst
  split
  · split
    · left
      dsimp only
      rw [hflag]
      split <;> rfl
    · rw [← hflag v]
      unfold dbProcessQueue
      split
      · exact Or.inl rfl
      · dsimp only
        generalize hu : View.emit [Effect.dbProcessQueue v.ps.peerOnion _] _ = u
        have hview : rxView i u = rxView i (v.setPs fun ps => { ps with queueFlushed := true }) := by
          rw [← hu, rxView_emit (by rfl)]
          rfl
        rw [← hview]
        exact flushQueue_rx _ _ u
  · exact Or.inl rfl

end Sending

section FileRx

variable {P : Primitives} {E : Env} {i : Slot}

/-- Only the state may move, between the states of a session. -/
def StateMoved (a b : RxView) : Prop :=
  ∃ st : PeerState, b = { a with state := st } ∧ (a.state.InSession → st.InSession)

theorem StateMoved.refl
    (a : RxView) :
    StateMoved a a :=
  ⟨a.state, rfl, id⟩

theorem StateMoved.of_eq
    {a b : RxView} (h : b = a) :
    StateMoved a b := by
  rw [h]
  exact StateMoved.refl a

theorem StateMoved.trans
    {a b c : RxView} (h : StateMoved a b) (h' : StateMoved b c) :
    StateMoved a c := by
  obtain ⟨st, rfl, hst⟩ := h
  obtain ⟨st', rfl, hst'⟩ := h'
  exact ⟨st', rfl, fun h => hst' (hst h)⟩

/-- The two events of a file transfer move the state and nothing else. -/
theorem smDispatch_file_rx
    {ev : PeerEvent} (hev : ev = .fileDone ∨ ev = .fileRxStart) (v : View) :
    StateMoved (rxView i v) (rxView i (smDispatch P E i ev v).2) := by
  cases hfind : findTransition v.ps.state ev with
  | none =>
      rw [smDispatch_none hfind]
      exact StateMoved.refl _
  | some t =>
      have hrow : (t.action = .fileEnd ∨ t.action = .fileBeginRx) ∧ t.target.InSession := by
        rcases hev with rfl | rfl <;> cases hst : v.ps.state <;> rw [hst] at hfind <;>
          cases hfind <;> simp [PeerState.InSession]
      have hact : t.action = .connect ∨ t.action = .accept ∨ t.action = .sessionUp ∨
          t.action = .fileEnd ∨ t.action = .fileBeginRx := by
        rcases hrow.1 with h | h <;> simp [h]
      rw [smDispatch_move hfind hact]
      exact ⟨t.target, rfl, fun _ => hrow.2⟩

theorem rxFinish_rx
    (v : View) :
    StateMoved (rxView i v) (rxView i (rxFinish P E i v)) := by
  have h1 : rxView i (v.setPs fun ps => { ps with rxFile := { fd := -1 } }) = rxView i v :=
    rxView_setPs ⟨rfl, rfl, rfl, rfl, rfl, rfl⟩
  unfold rxFinish
  rw [← h1]
  exact smDispatch_file_rx (Or.inl rfl) _

theorem rxAbort_rx
    (v : View) :
    StateMoved (rxView i v) (rxView i (rxAbort P E i v)) := by
  unfold rxAbort
  dsimp only
  have h1 : ∀ es : List Effect, delivered i es = [] →
      rxView i ((v.emit es).uiPrintError
        "Transfer iptal edildi ve yarım kalan dosya silindi." []) = rxView i v := by
    intro es hes
    rw [rxView_uiPrintError, rxView_emit hes]
  split
  · rw [← h1 [.fileUnlink i v.ps.rxFile.localName] rfl]
    exact rxFinish_rx _
  · rw [← h1 [] rfl]
    exact rxFinish_rx _

theorem rxView_openatExcl
    (name : Bytes) (v : View) :
    rxView i (openatExcl E i name v).2 = rxView i v := by
  unfold openatExcl
  cases E.openat v.sh.tick with
  | fd fd =>
      exact rxView_emit rfl v.tickOn
  | eexist =>
      rfl
  | err =>
      rfl

theorem rxView_openRecvFile
    (safeName : Bytes) (v : View) :
    rxView i (openRecvFile E i safeName v).2 = rxView i v := by
  unfold openRecvFile
  split
  · rfl
  split
  · rfl
  split
  · rfl
  dsimp only
  split
  · rfl
  have h1 := rxView_openatExcl (E := E) (i := i) (receivedTag ++ safeName) v.tickOn
  generalize openatExcl E i (receivedTag ++ safeName) v.tickOn = r at h1 ⊢
  obtain ⟨_ | _ | _, v1⟩ := r
  · exact (rxView_setPs ⟨rfl, rfl, rfl, rfl, rfl, rfl⟩).trans h1
  · dsimp only
    split
    · exact h1
    have h2 := rxView_openatExcl (E := E) (i := i)
      (receivedTag ++ safeName ++ [0x2e] ++ hex8 (E.random v1.sh.tick)) v1.tickOn
    generalize openatExcl E i
      (receivedTag ++ safeName ++ [0x2e] ++ hex8 (E.random v1.sh.tick)) v1.tickOn = r at h2 ⊢
    obtain ⟨_ | _ | _, v2⟩ := r
    · exact (rxView_setPs ⟨rfl, rfl, rfl, rfl, rfl, rfl⟩).trans (h2.trans h1)
    · exact h2.trans h1
    · exact h2.trans h1
  · exact h1

theorem rxView_hashCall
    (message : String) (v : View) :
    rxView i (hashCall E message v).2 = rxView i v := by
  unfold hashCall
  split <;> rfl

theorem rxBegin_rx
    (fileFd : Nat) (safeName : Bytes) (size : Nat) (hash : Block 32) (v : View) :
    StateMoved (rxView i v) (rxView i (rxBegin P E i fileFd safeName size hash v)) := by
  unfold rxBegin
  dsimp only
  generalize hv1 : (v.tickOn.setPs fun ps => { ps with rxFile := { ps.rxFile with
    active := true
    fd := fileFd
    expectedSize := size
    receivedBytes := 0
    lastChunkTs := E.clock v.sh.tick
    expectedHash := hash
    filename := strCopy 255 safeName } }) = v1
  have h1 : rxView i v1 = rxView i v := by
    rw [← hv1, rxView_setPs ⟨rfl, rfl, rfl, rfl, rfl, rfl⟩, rxView_tickOn]
  have h2 := smDispatch_file_rx (P := P) (E := E) (i := i) (Or.inr rfl) v1
  rw [h1] at h2
  generalize (smDispatch P E i .fileRxStart v1).2 = v2 at h2 ⊢
  have h3 := rxView_hashCall (E := E) (i := i) "Hash state başlatılamadı" v2
  generalize hashCall E "Hash state başlatılamadı" v2 = r at h3 ⊢
  obtain ⟨_ | _, v3⟩ := r
  · exact (h2.trans (StateMoved.of_eq h3)).trans (rxAbort_rx v3)
  have h4 := rxView_hashCall (E := E) (i := i) "Hash güncellenemedi" v3
  dsimp only
  generalize hashCall E "Hash güncellenemedi" v3 = r at h4 ⊢
  obtain ⟨_ | _, v4⟩ := r
  · exact (h2.trans (StateMoved.of_eq (h4.trans h3))).trans (rxAbort_rx v4)
  · apply (h2.trans (StateMoved.of_eq (h4.trans h3))).trans
    apply StateMoved.of_eq
    rw [rxView_uiPrintSystem]
    exact rxView_setPs ⟨rfl, rfl, rfl, rfl, rfl, rfl⟩

theorem rxMetadata_rx
    (pt : Bytes) (v : View) :
    StateMoved (rxView i v) (rxView i (rxMetadata P E i pt v)) := by
  unfold rxMetadata
  dsimp only
  split
  · exact StateMoved.refl _
  cases E.statvfs v.tickOn.sh.tick with
  | none =>
      exact StateMoved.refl _
  | some disk =>
      dsimp only
      split
      · exact StateMoved.refl _
      split
      · exact StateMoved.refl _
      generalize sanitizeFilename (E.random v.sh.tick) 256 (cstr ((pt.drop 9).take 255)) = safeName
      have h1 := rxView_openRecvFile (E := E) (i := i) safeName
        (v.tickOn.tickOn.setPs fun ps => { ps with rxFile := {} })
      rw [rxView_setPs ⟨rfl, rfl, rfl, rfl, rfl, rfl⟩, rxView_tickOn, rxView_tickOn] at h1
      generalize openRecvFile E i safeName
        (v.tickOn.tickOn.setPs fun ps => { ps with rxFile := {} }) = r at h1 ⊢
      obtain ⟨_ | fileFd, v3⟩ := r
      · exact StateMoved.of_eq h1
      · rw [← h1]
        exact rxBegin_rx _ _ _ _ v3

theorem rxComplete_rx
    (v : View) :
    StateMoved (rxView i v) (rxView i (rxComplete P E i v)) := by
  have hun : rxView i (v.tickOn.emit [.fileUnlink i v.ps.rxFile.localName]) = rxView i v :=
    rxView_emit rfl v.tickOn
  have hdone : rxView i (v.tickOn.emit [.fileDone i v.ps.rxFile.localName]) = rxView i v :=
    rxView_emit rfl v.tickOn
  unfold rxComplete
  dsimp only
  split
  · rw [← hun]
    exact rxFinish_rx _
  split
  · rw [← hdone]
    exact rxFinish_rx (View.uiPrintSystem _ _ _)
  · rw [← hun]
    exact rxFinish_rx (View.uiPrintError _ _ _)

theorem rxData_rx
    (pt : Bytes) (v : View) :
    StateMoved (rxView i v) (rxView i (rxData P E i pt v)) := by
  unfold rxData
  dsimp only
  split
  · exact rxAbort_rx v
  split
  · exact rxAbort_rx v
  generalize writeToFile (E.fileWrites v.sh.tick)
    (pt.take (v.ps.rxFile.expectedSize - v.ps.rxFile.receivedBytes)) = written
  have h1 : rxView i (v.tickOn.emit [.fileWrite i v.ps.rxFile.localName written.2]) =
      rxView i v :=
    rxView_emit rfl v.tickOn
  generalize v.tickOn.emit [.fileWrite i v.ps.rxFile.localName written.2] = v1 at h1 ⊢
  rw [← h1]
  split
  · exact rxAbort_rx v1
  split
  · exact rxAbort_rx v1.tickOn
  generalize hv3 : (v1.tickOn.tickOn.setPs fun ps => { ps with rxFile := { ps.rxFile with
    hashState := ps.rxFile.hashState ++
      pt.take (v.ps.rxFile.expectedSize - v.ps.rxFile.receivedBytes)
    receivedBytes := ps.rxFile.receivedBytes +
      (pt.take (v.ps.rxFile.expectedSize - v.ps.rxFile.receivedBytes)).length
    lastChunkTs := E.clock v1.tickOn.sh.tick } }) = v3
  have h3 : rxView i v3 = rxView i v1 := by
    rw [← hv3, rxView_setPs ⟨rfl, rfl, rfl, rfl, rfl, rfl⟩, rxView_tickOn, rxView_tickOn]
  rw [← h3]
  split
  · split
    · exact rxAbort_rx v3
    · exact rxComplete_rx v3
  · exact StateMoved.refl _

theorem rxRecord_rx
    (pt : Bytes) (v : View) :
    StateMoved (rxView i v) (rxView i (rxRecord P E i pt v)) := by
  unfold rxRecord
  split
  · split
    · exact rxAbort_rx v
    · exact rxMetadata_rx pt v
  split
  · exact rxData_rx pt v
  · exact StateMoved.refl _

end FileRx

section Records

variable {P : Primitives} {E : Env} {i : Slot} {v : View} {payload : Bytes}

/-- The AEAD check of a frame with the session of the slot. -/
def opened (P : Primitives) (v : View) (payload : Bytes) : Option Bytes :=
  (noiseDecrypt P v.ps.session (.data payload) true).1

/-- The session of the slot has a receiving key. -/
def Keyed (v : View) : Prop :=
  ∃ s, v.ps.session = some s ∧ s.rx.hasKey = true

/-- A successful check uses one nonce, and the payload has 16 bytes more than the plaintext. -/
theorem noiseDecrypt_some
    {pt : Bytes} (hkey : Keyed v) (h : opened P v payload = some pt) :
    (noiseDecrypt P v.ps.session (.data payload) true).2.map NoiseSession.rx =
        (v.ps.session.map NoiseSession.rx).map (fun cs => { cs with n := cs.n + 1 }) ∧
      payload.length = pt.length + 16 := by
  obtain ⟨s, hs, hk⟩ := hkey
  unfold opened at h
  rw [hs] at h ⊢
  rcases noiseDecrypt_cases (P := P) hk payload with heq | ⟨pt', -, hd, heq⟩
  · rw [heq] at h
    cases h
  · rw [heq] at h ⊢
    cases h
    exact ⟨rfl, P.aeadDecrypt_length _ _ _ _ _ hd⟩

/-- The slot with the session that a decryption leaves. -/
def afterOpen (P : Primitives) (payload : Bytes) (v : View) : View :=
  v.setPs fun ps => { ps with session := (noiseDecrypt P v.ps.session (.data payload) true).2 }

theorem rxView_afterOpen_none
    (h : opened P v payload = none) :
    rxView i (afterOpen P payload v) = rxView i v := by
  unfold afterOpen
  rw [noiseDecrypt_none h]
  rfl

theorem rxView_afterOpen_some
    {pt : Bytes} (hkey : Keyed v) (h : opened P v payload = some pt) :
    rxView i (afterOpen P payload v) = (rxView i v).nonceUsed := by
  unfold afterOpen
  rw [rxView_session, (noiseDecrypt_some hkey h).1]
  rfl

theorem textFrame_eq
    (hmem : E.malloc v.sh.tick = true) :
    textFrame P E i payload v =
      match opened P v payload with
      | some (b :: pt) =>
          if (b :: pt).length ≤ payload.length then
            rxAdvance E (flushOnFirst P E i
              ((afterOpen P payload v.tickOn).emit [.incoming i (b :: pt)]))
          else afterOpen P payload v.tickOn
      | _ => afterOpen P payload v.tickOn := by
  unfold textFrame sodiumMalloc
  rw [hmem]
  rfl

/-- A text without memory for its plaintext, or that fails the check, changes nothing. -/
theorem textFrame_refused
    (h : E.malloc v.sh.tick = false ∨ opened P v payload = none) :
    rxView i (textFrame P E i payload v) = rxView i v := by
  cases hmem : E.malloc v.sh.tick with
  | false =>
      unfold textFrame sodiumMalloc
      rw [hmem]
      rfl
  | true =>
      have hopen : opened P v payload = none := by
        rcases h with h | h
        · rw [hmem] at h
          cases h
        · exact h
      rw [textFrame_eq hmem, hopen]
      exact rxView_afterOpen_none (v := v.tickOn) hopen

/-- An empty text uses a nonce but no sequence number. -/
theorem textFrame_empty
    (hkey : Keyed v) (hmem : E.malloc v.sh.tick = true) (hopen : opened P v payload = some []) :
    rxView i (textFrame P E i payload v) = (rxView i v).nonceUsed := by
  rw [textFrame_eq hmem, hopen]
  exact rxView_afterOpen_some (v := v.tickOn) hkey hopen

/-- Any other text is displayed; sending the queue after it may tear the slot down. -/
theorem textFrame_shown
    {pt : Bytes} (hkey : Keyed v) (hmem : E.malloc v.sh.tick = true)
    (hopen : opened P v payload = some pt) (hpt : pt ≠ []) :
    rxView i (textFrame P E i payload v) = ((rxView i v).handOn noxMsgText pt).advanced ∨
    rxView i (textFrame P E i payload v) =
      { ((rxView i v).handOn noxMsgText pt).torn with rxSeq := 1 } := by
  have hlen := (noiseDecrypt_some hkey hopen).2
  obtain ⟨b, pt, rfl⟩ := List.exists_cons_of_ne_nil hpt
  rw [textFrame_eq hmem, hopen]
  dsimp only
  rw [if_pos (by omega)]
  have hopen' := rxView_afterOpen_some (P := P) (i := i) (v := v.tickOn) hkey hopen
  generalize afterOpen P payload v.tickOn = v1 at hopen' ⊢
  have hshow := rxView_incoming (i := i) (b :: pt) v1
  generalize v1.emit [.incoming i (b :: pt)] = v2 at hshow ⊢
  have hflush := flushOnFirst_rx (P := P) (E := E) (i := i) v2
  generalize flushOnFirst P E i v2 = v3 at hflush ⊢
  have hadv : rxView i (rxAdvance E v3) = (rxView i v3).counted := rfl
  rw [hadv]
  rcases hflush with h | h
  · left
    rw [h, hshow, hopen']
    rfl
  · right
    rw [h, hshow, hopen']
    rfl

theorem StateMoved.counted
    {a b : RxView} (h : StateMoved a b) :
    StateMoved a.counted b.counted := by
  obtain ⟨st, rfl, hst⟩ := h
  exact ⟨st, rfl, hst⟩

/-- A FILE frame that is too short, or without memory for its plaintext, changes nothing. -/
theorem fileFrame_ignored
    (h : payload.length < noxMacLen ∨ E.malloc v.sh.tick = false) :
    rxView i (fileFrame P E i payload v) = rxView i v := by
  unfold fileFrame fileTransferHandleRx
  by_cases hlen : payload.length < noxMacLen ∨ payload.length > 4096 + noxMacLen
  · rw [if_pos hlen]
    rfl
  · rw [if_neg hlen]
    rw [not_or] at hlen
    have hmem : E.malloc v.sh.tick = false := by
      rcases h with h | h
      · exact absurd h hlen.1
      · exact h
    unfold sodiumMalloc
    rw [hmem]
    rfl

theorem fileFrame_eq
    (hlen : noxMacLen ≤ payload.length ∧ payload.length ≤ 4096 + noxMacLen)
    (hmem : E.malloc v.sh.tick = true) :
    fileFrame P E i payload v = rxAdvance E
      (match opened P v payload with
      | some (b :: pt) =>
          rxRecord P E i (b :: pt) ((afterOpen P payload v.tickOn).emit [.fileRecord i (b :: pt)])
      | _ =>
          if (afterOpen P payload v.tickOn).ps.rxFile.active then
            rxAbort P E i ((afterOpen P payload v.tickOn).uiPrintError rxDecryptError [])
          else (afterOpen P payload v.tickOn).uiPrintError rxDecryptError []) := by
  have hbound : ¬ (payload.length < noxMacLen ∨ payload.length > 4096 + noxMacLen) := by omega
  have hopened : (noiseDecrypt P v.ps.session (.data payload) true).1 = opened P v payload := rfl
  unfold fileFrame fileTransferHandleRx
  rw [if_neg hbound]
  unfold sodiumMalloc
  rw [hmem]
  dsimp only
  rw [View.tickOn_ps, hopened]
  have hafter : (v.tickOn.setPs fun ps => { ps with
      session := (noiseDecrypt P v.ps.session (.data payload) true).2 }) =
      afterOpen P payload v.tickOn := rfl
  rw [hafter]
  generalize afterOpen P payload v.tickOn = v1
  rcases opened P v payload with _ | _ | ⟨b, pt⟩
  · by_cases hact : v1.ps.rxFile.active = true <;> simp [hact, rxDecryptError]
  · by_cases hact : v1.ps.rxFile.active = true <;> simp [hact, rxDecryptError]
  · rfl

/-- The end of a FILE frame that opens to nothing. -/
theorem rxView_dropped
    (v : View) :
    StateMoved (rxView i v)
      (rxView i (if v.ps.rxFile.active then
        rxAbort P E i (v.uiPrintError rxDecryptError [])
        else v.uiPrintError rxDecryptError [])) := by
  split
  · exact rxAbort_rx (v.uiPrintError rxDecryptError [])
  · exact StateMoved.refl _

/-- A FILE frame that fails the check uses a sequence number but no nonce. -/
theorem fileFrame_refused
    (hlen : noxMacLen ≤ payload.length ∧ payload.length ≤ 4096 + noxMacLen)
    (hmem : E.malloc v.sh.tick = true) (hopen : opened P v payload = none) :
    StateMoved (rxView i v).counted (rxView i (fileFrame P E i payload v)) := by
  have hsame := rxView_afterOpen_none (P := P) (i := i) (v := v.tickOn) hopen
  rw [rxView_tickOn] at hsame
  rw [fileFrame_eq hlen hmem, hopen, ← hsame]
  exact (rxView_dropped (afterOpen P payload v.tickOn)).counted

/-- An empty FILE frame moves both counters and is not handed on. -/
theorem fileFrame_empty
    (hlen : noxMacLen ≤ payload.length ∧ payload.length ≤ 4096 + noxMacLen) (hkey : Keyed v)
    (hmem : E.malloc v.sh.tick = true) (hopen : opened P v payload = some []) :
    StateMoved (rxView i v).advanced (rxView i (fileFrame P E i payload v)) := by
  have hnext := rxView_afterOpen_some (P := P) (i := i) (v := v.tickOn) hkey hopen
  rw [fileFrame_eq hlen hmem, hopen]
  have h := (rxView_dropped (P := P) (E := E) (i := i) (afterOpen P payload v.tickOn)).counted
  rw [hnext] at h
  exact h

/-- Any other FILE frame moves both counters and is handed on. -/
theorem fileFrame_handed
    {pt : Bytes} (hlen : noxMacLen ≤ payload.length ∧ payload.length ≤ 4096 + noxMacLen)
    (hkey : Keyed v) (hmem : E.malloc v.sh.tick = true)
    (hopen : opened P v payload = some pt) (hpt : pt ≠ []) :
    StateMoved ((rxView i v).handOn noxMsgFile pt).advanced
      (rxView i (fileFrame P E i payload v)) := by
  have hnext := rxView_afterOpen_some (P := P) (i := i) (v := v.tickOn) hkey hopen
  obtain ⟨b, pt, rfl⟩ := List.exists_cons_of_ne_nil hpt
  rw [fileFrame_eq hlen hmem, hopen]
  dsimp only
  generalize afterOpen P payload v.tickOn = v1 at hnext ⊢
  have hhand := rxView_fileRecord (i := i) (b :: pt) v1
  generalize v1.emit [.fileRecord i (b :: pt)] = v2 at hhand ⊢
  have h := (rxRecord_rx (P := P) (E := E) (i := i) (b :: pt) v2).counted
  rw [hhand, hnext] at h
  exact h

end Records

end App
end Noxtor
