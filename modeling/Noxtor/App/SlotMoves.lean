import Noxtor.App.Lifecycle
import Noxtor.App.PeerFrames
import Noxtor.Noise.Turns

/-!
# The functions on a slot make moves

Every function that works on a slot takes it through moves of its life: sending text,
sending and receiving files, and the frame loop.  A function that is not in a position to
change the life of the slot leaves it as it is.
-/

namespace Noxtor
namespace App

open ByteString Noise

section Session

variable {P : Primitives} {v : View}

theorem noiseEncrypt_remote
    (s : Option NoiseSession) (pt : Buf) (out : Bool) :
    (noiseEncrypt P s pt out).2.map NoiseSession.remoteStatic =
      s.map NoiseSession.remoteStatic := by
  cases s with
  | none =>
      rfl
  | some s =>
      simp only [noiseEncrypt]
      split_ifs <;> rfl

theorem noiseDecrypt_remote
    (s : Option NoiseSession) (ct : Buf) (out : Bool) :
    (noiseDecrypt P s ct out).2.map NoiseSession.remoteStatic =
      s.map NoiseSession.remoteStatic := by
  cases s with
  | none =>
      rfl
  | some s =>
      simp only [noiseDecrypt]
      split_ifs <;> rfl

/-- A session with the same remote key is the same for the life of the slot. -/
theorem life_session
    {s : Option NoiseSession}
    (h : s.map NoiseSession.remoteStatic = v.ps.session.map NoiseSession.remoteStatic) :
    life (v.setPs fun ps => { ps with session := s }) = life v := by
  apply life_setPs
  simp [slotLife, isBlank, h]

end Session

section Sending

variable {P : Primitives} {E : Env} {i : Slot}

theorem sendText_moves
    (pt : Bytes) (v : View) :
    Moves i (life v) (life (sendText P E i pt v).2) := by
  have hrem := noiseEncrypt_remote (P := P) v.ps.session (.data pt) true
  unfold sendText
  generalize noiseEncrypt P v.ps.session (.data pt) true = enc at hrem ⊢
  obtain ⟨_ | ct, session⟩ := enc
  · exact Moves.of_eq (life_session hrem)
  have h1 := life_session hrem
  dsimp only
  generalize (v.setPs fun ps => { ps with session := session }) = v1 at h1 ⊢
  have h2 := life_sockWrite E i (frameBytes noxMsgText v1.ps.txSeq ct) v1
  generalize sockWrite E i (frameBytes noxMsgText v1.ps.txSeq ct) v1 = w at h2 ⊢
  obtain ⟨r, v2⟩ := w
  rw [← h1, ← h2]
  cases r with
  | ok n =>
      dsimp only
      split
      · exact peerDisconnected_moves v2
      · exact Moves.of_eq ((life_touchLastActive E _).trans (life_setPs rfl))
  | eagain =>
      exact peerDisconnected_moves v2
  | eintr =>
      exact peerDisconnected_moves v2
  | err =>
      exact peerDisconnected_moves v2

theorem sendQueuedCallback_moves
    (text : Bytes) (v : View) :
    Moves i (life v) (life (sendQueuedCallback P E i text v).2) := by
  unfold sendQueuedCallback
  split
  · exact Moves.refl _
  split
  · exact Moves.refl _
  unfold sodiumMalloc
  generalize E.malloc v.sh.tick = ok
  cases ok with
  | false =>
      exact Moves.refl _
  | true =>
      exact sendText_moves _ v.tickOn

theorem segmentLoop_moves
    (msg : Bytes) (fuel offset : Nat) (v : View) :
    Moves i (life v) (life (segmentLoop P E i msg fuel offset v).2) := by
  induction fuel generalizing offset v with
  | zero =>
      exact Moves.refl _
  | succ fuel ih =>
      unfold segmentLoop
      split
      · have h := sendText_moves (P := P) (E := E) (i := i)
          ((msg.drop offset).take (noxNextChunkSize msg offset msg.length) ++ [0]) v
        dsimp only
        generalize sendText P E i
          ((msg.drop offset).take (noxNextChunkSize msg offset msg.length) ++ [0]) v = r at h ⊢
        obtain ⟨_ | _, v1⟩ := r
        · exact h
        · exact h.trans (ih _ v1)
      · exact Moves.refl _

theorem sendSegmentedMessageTo_moves
    (msg : Bytes) (v : View) :
    Moves i (life v) (life (sendSegmentedMessageTo P E i msg v).2) := by
  unfold sendSegmentedMessageTo
  split
  · exact Moves.refl _
  dsimp only
  split
  · exact Moves.refl _
  · exact segmentLoop_moves msg _ _ (sodiumMalloc E (sodiumMalloc E v).2).2

theorem flushQueue_moves
    (onion : Bytes) (texts : List Bytes) (v : View) :
    Moves i (life v) (life (flushQueue P E i onion texts v)) := by
  induction texts generalizing v with
  | nil =>
      exact Moves.refl _
  | cons text texts ih =>
      unfold flushQueue
      dsimp only
      generalize hu : (v.emit [Effect.queueSend i onion text _]) = u
      have hlife : life u = life v := by
        rw [← hu, life_emit (by simp [Effect.isMark])]
      have h := sendQueuedCallback_moves (P := P) (E := E) (i := i) text u
      rw [hlife] at h
      generalize sendQueuedCallback P E i text u = r at h ⊢
      obtain ⟨_ | _, v1⟩ := r
      · exact h
      · exact h.trans (ih v1)

theorem dbProcessQueue_moves
    (onion : Bytes) (v : View) :
    Moves i (life v) (life (dbProcessQueue P E i onion v)) := by
  unfold dbProcessQueue
  split
  · exact Moves.refl _
  · dsimp only
    generalize hu : (v.tickOn.emit [Effect.dbProcessQueue onion _]) = u
    have hlife : life u = life v := by
      rw [← hu, life_emit (by simp [Effect.isMark])]
      rfl
    rw [← hlife]
    exact flushQueue_moves onion _ u

end Sending

section FileTx

variable {P : Primitives} {E : Env} {i : Slot}

/-- The states in which a slot has a session. -/
def PeerState.InSession (st : PeerState) : Prop :=
  st = .active ∨ st = .fileRx

/-- The same life with `tx_file` active or not. -/
def Life.setTx (a : Life) (b : Bool) : Life :=
  { a with slot := { a.slot with txActive := b } }

/-- Whatever a function does to `tx_file` is a move of a slot in session. -/
theorem tx_moves
    {v v' : View} {b : Bool} (hst : v.ps.state.InSession)
    (h : life v' = (life v).setTx b) :
    Moves i (life v) (life v') := by
  rw [h]
  exact Moves.one (.tx b hst)

theorem life_setTx_active
    {v : View} (h : v.ps.txFile.active = true) :
    life v = (life v).setTx true := by
  simp [life, slotLife, Life.setTx, h]

theorem life_txClear
    (v : View) :
    life (txClear v) = (life v).setTx false := by
  rfl

theorem life_openSource
    (v : View) :
    life (openSource E v).2 = life v := by
  unfold openSource
  cases E.openFile v.sh.tick with
  | none =>
      simp
  | some fileFd =>
      dsimp only
      cases E.fileStat v.tickOn.sh.tick with
      | none =>
          simp
      | some st =>
          dsimp only
          split_ifs <;> simp

theorem life_hashCall
    (message : String) (v : View) :
    life (hashCall E message v).2 = life v := by
  unfold hashCall
  split <;> simp

theorem life_hashLoop
    (reads : List ReadResult) (acc : Bytes) (v : View) :
    life (hashLoop E reads acc v).2 = life v := by
  induction reads generalizing acc v with
  | nil =>
      rfl
  | cons r reads ih =>
      cases r with
      | data b =>
          cases b with
          | nil =>
              rfl
          | cons c b =>
              have h := life_hashCall (E := E) "Hash güncellenemedi" v
              unfold hashLoop
              generalize hashCall E "Hash güncellenemedi" v = r at h ⊢
              obtain ⟨_ | _, v1⟩ := r
              · exact h
              · exact (ih _ v1).trans h
      | eintr =>
          exact ih acc v
      | eagain =>
          exact life_uiPrintError _ _ v
      | err =>
          exact life_uiPrintError _ _ v

theorem life_hashSource
    (size : Nat) (v : View) :
    life (hashSource P E size v).2 = life v := by
  unfold hashSource
  have h1 := life_hashCall (E := E) "Hash state başlatılamadı" v
  generalize hashCall E "Hash state başlatılamadı" v = r at h1 ⊢
  obtain ⟨_ | _, v1⟩ := r
  · exact h1
  have h2 := life_hashCall (E := E) "Hash güncellenemedi" v1
  dsimp only
  generalize hashCall E "Hash güncellenemedi" v1 = r at h2 ⊢
  obtain ⟨_ | _, v2⟩ := r
  · exact h2.trans h1
  have h3 := life_hashLoop (E := E) (E.hashReads v2.sh.tick) (be64 size) v2.tickOn
  dsimp only
  generalize hashLoop E (E.hashReads v2.sh.tick) (be64 size) v2.tickOn = r at h3 ⊢
  obtain ⟨_ | absorbed, v3⟩ := r
  · exact h3.trans (h2.trans h1)
  have h4 := life_hashCall (E := E) "Hash tamamlanamadı" v3
  dsimp only
  generalize hashCall E "Hash tamamlanamadı" v3 = r at h4 ⊢
  obtain ⟨_ | _, v4⟩ := r
  · exact h4.trans (h3.trans (h2.trans h1))
  · have h : life v4 = life v := h4.trans (h3.trans (h2.trans h1))
    dsimp only
    split <;> simpa using h

/-- `file_transfer_start` past the checks leaves a transfer, or none. -/
theorem life_sendMetadata
    (name : Bytes) {v : View} (hact : v.ps.txFile.active = true) :
    ∃ b, life (sendMetadata P E i name v) = (life v).setTx b := by
  have hsame := life_setTx_active hact
  have hrem := noiseEncrypt_remote (P := P) v.ps.session
    (.data (metadataBytes name v.ps.txFile.totalSize v.ps.txFile.hash)) true
  unfold sendMetadata
  dsimp only
  generalize noiseEncrypt P v.ps.session
    (.data (metadataBytes name v.ps.txFile.totalSize v.ps.txFile.hash)) true = enc at hrem ⊢
  obtain ⟨_ | ct, session⟩ := enc
  · have h1 := life_session hrem
    exact ⟨false, by rw [life_txClear, life_uiPrintError, h1]⟩
  have h1 := life_session hrem
  dsimp only
  generalize (v.setPs fun ps => { ps with session := session }) = v1 at h1 ⊢
  have h2 := life_sockWrite E i (frameBytes noxMsgFile v1.ps.txSeq ct) v1
  generalize sockWrite E i (frameBytes noxMsgFile v1.ps.txSeq ct) v1 = w at h2 ⊢
  obtain ⟨r, v2⟩ := w
  have h : life v2 = life v := h2.trans h1
  have hfail : life (txClear (v2.uiPrintError "Metadata gönderim hatası." [])) =
      (life v).setTx false := by
    rw [life_txClear, life_uiPrintError, h]
  cases r with
  | ok n =>
      dsimp only
      split
      · exact ⟨false, hfail⟩
      · exact ⟨true, by rw [life_uiPrintSystem, life_setPs rfl, h, ← hsame]⟩
  | eagain =>
      exact ⟨false, hfail⟩
  | eintr =>
      exact ⟨false, hfail⟩
  | err =>
      exact ⟨false, hfail⟩

theorem fileTransferStart_moves
    (filepath : Bytes) {v : View} (hok : (life v).Ok) :
    Moves i (life v) (life (fileTransferStart P E i filepath v)) := by
  unfold fileTransferStart
  split
  · exact Moves.refl _
  rename_i hlive
  rw [not_or] at hlive
  have hst : v.ps.state.InSession := hok.1.of_session (by simpa [life, slotLife] using hlive.2)
  split
  · exact Moves.refl _
  split
  · exact Moves.refl _
  have h1 := life_openSource (E := E) v
  generalize openSource E v = r at h1 ⊢
  obtain ⟨_ | ⟨fileFd, size⟩, v1⟩ := r
  · exact Moves.of_eq h1
  have h2 := life_hashSource (P := P) (E := E) size v1
  dsimp only
  generalize hashSource P E size v1 = r at h2 ⊢
  obtain ⟨_ | hash, v2⟩ := r
  · exact Moves.of_eq (h2.trans h1)
  have h : life v2 = life v := h2.trans h1
  dsimp only [sodiumMalloc]
  generalize hv3 : (v2.setPs fun ps => { ps with txFile :=
      { active := true, fd := fileFd, filename := strCopy 255 (basename filepath),
        totalSize := size, hash := hash } }) = v3
  have h3 : life v3 = (life v).setTx true := by
    rw [← hv3, ← h]
    rfl
  have hact : v3.ps.txFile.active = true := by
    rw [← hv3]
    rfl
  generalize E.malloc v3.sh.tick = ok
  cases ok with
  | false =>
      exact tx_moves (b := false) hst
        (by rw [life_txClear, life_uiPrintError, life_tickOn, h3]; rfl)
  | true =>
      obtain ⟨b, hb⟩ := life_sendMetadata (P := P) (E := E) (i := i)
        (strCopy 255 (basename filepath))
        (v := v3.tickOn.setPs fun ps =>
          { ps with txFile := { ps.txFile with plainBuf := true } }) hact
      have h4 : life (v3.tickOn.setPs fun ps =>
          { ps with txFile := { ps.txFile with plainBuf := true } }) = life v3 :=
        (life_setPs rfl).trans (life_tickOn v3)
      exact tx_moves (b := b) hst (by rw [hb, h4, h3]; rfl)

theorem life_txFrameDone
    {v : View} (hact : v.ps.txFile.active = true) :
    ∃ b, life (txFrameDone v) = (life v).setTx b := by
  have hsame := life_setTx_active hact
  unfold txFrameDone
  dsimp only
  split
  · exact ⟨false, by rw [life_txClear, life_uiPrintSystem, life_setPs rfl]⟩
  · exact ⟨true, by rw [life_say, life_setPs rfl, ← hsame]⟩

theorem life_txAdvance
    (n : Nat) {v : View} (hact : v.ps.txFile.active = true) :
    ∃ b, life (txAdvance E n v) = (life v).setTx b := by
  have hsame := life_setTx_active hact
  unfold txAdvance
  dsimp only
  generalize hv1 : touchLastActive E (v.setPs fun ps =>
    { ps with txFile := { ps.txFile with txOffset := ps.txFile.txOffset + n } }) = v1
  have h1 : life v1 = life v := by
    rw [← hv1, life_touchLastActive]
    exact life_setPs rfl
  have hact1 : v1.ps.txFile.active = true := by
    rw [← hv1]
    exact hact
  rw [← h1] at hsame ⊢
  split
  · exact life_txFrameDone hact1
  · exact ⟨true, hsame⟩

/-- A turn of the sending side leaves the transfer active or ends it. -/
theorem life_txFlush
    {v : View} (hact : v.ps.txFile.active = true) :
    ∃ b, life (txFlush E i v) = (life v).setTx b := by
  have hps := sockWrite_ps E i v.ps.txFile.pending v
  have h := life_sockWrite E i v.ps.txFile.pending v
  unfold txFlush
  generalize sockWrite E i v.ps.txFile.pending v = w at h hps ⊢
  obtain ⟨r, v1⟩ := w
  have hact1 : v1.ps.txFile.active = true := by
    rw [show v1.ps = v.ps from hps, hact]
  have hsame := life_setTx_active hact1
  rw [← h]
  have hfail : life (txClear (v1.uiPrintError "Dosya gönderimi koptu (%s)" [])) =
      (life v1).setTx false := by
    rw [life_txClear, life_uiPrintError]
  cases r with
  | ok n =>
      dsimp only
      split
      · exact ⟨false, hfail⟩
      · exact life_txAdvance n hact1
  | eagain =>
      exact ⟨true, hsame⟩
  | eintr =>
      exact ⟨true, hsame⟩
  | err =>
      exact ⟨false, hfail⟩

theorem life_txBuffer
    (chunk : Bytes) {v : View} (hact : v.ps.txFile.active = true) :
    ∃ b, life (txBuffer P chunk v) = (life v).setTx b := by
  have hsame := life_setTx_active hact
  unfold txBuffer
  dsimp only
  generalize hv1 : (v.setPs fun ps =>
    { ps with txFile := { ps.txFile with currentChunkSize := chunk.length } }) = v1
  have h1 : life v1 = life v := by
    rw [← hv1]
    exact life_setPs rfl
  rw [← h1] at hsame ⊢
  split
  · exact ⟨false, by rw [life_txClear, life_uiPrintError]⟩
  have hrem := noiseEncrypt_remote (P := P) v1.ps.session (.data chunk) true
  generalize noiseEncrypt P v1.ps.session (.data chunk) true = enc at hrem ⊢
  obtain ⟨_ | ct, session⟩ := enc
  · have h2 := life_session hrem
    exact ⟨false, by rw [life_txClear, life_uiPrintError, h2]⟩
  have h2 := life_session hrem
  dsimp only
  split
  · refine ⟨true, ?_⟩
    rw [← hsame, ← h2]
    rfl
  · exact ⟨false, by rw [life_txClear, life_uiPrintError, h2]⟩

/-- A call of `file_transfer_handle_tx` shows in the life of a slot as the end of a transfer
at most. -/
theorem life_fileTransferHandleTx
    {v : View} (hact : v.ps.txFile.active = true) :
    ∃ b, life (fileTransferHandleTx P E i v) = (life v).setTx b := by
  unfold fileTransferHandleTx
  split
  · exact ⟨true, life_setTx_active hact⟩
  split
  · exact life_txFlush hact
  unfold txNext
  dsimp only
  split
  · exact ⟨false, life_txClear v⟩
  have hfail : ∀ message, life (txClear (v.tickOn.uiPrintError message [])) =
      (life v).setTx false := by
    intro message
    rw [life_txClear, life_uiPrintError, life_tickOn]
  cases E.fileRead v.sh.tick with
  | data bytes =>
      dsimp only
      split
      · exact ⟨false, hfail _⟩
      · obtain ⟨b, hb⟩ := life_txBuffer (P := P)
          (bytes.take (min (v.ps.txFile.totalSize - v.ps.txFile.sentBytes) 4096))
          (v := v.tickOn) hact
        exact ⟨b, by rw [hb, life_tickOn]⟩
  | eintr =>
      exact ⟨true, life_setTx_active hact⟩
  | eagain =>
      exact ⟨false, hfail _⟩
  | err =>
      exact ⟨false, hfail _⟩

end FileTx

end App
end Noxtor
