import Noxtor.App.Deeds

/-!
# Deeds of the senders and of the file transfer

Sending leaves what counts as it is, except that a short write of a text tears the slot
down.  The receiving side of the file transfer is where files are created, written and
deleted.
-/

namespace Noxtor
namespace App

open ByteString Noise

section Sending

variable {P : Primitives} {E : Env} {cmd : Cmd} {i : Slot} {v : View}

theorem minor_session
    {s : Option NoiseSession} (v : View)
    (h : s.map NoiseSession.remoteStatic = v.ps.session.map NoiseSession.remoteStatic) :
    Minor v (v.setPs fun ps => { ps with session := s }) :=
  Minor.setPs v (core_session h)

/-- The slot of a session may write. -/
theorem sends_sockWrite
    (data : Bytes) {v : View} (hlive : v.ps.session ≠ none) :
    Sends P E cmd i v (sockWrite E i data v).2 := by
  have htick := Minor.tickOn v
  unfold sockWrite
  cases E.write v.sh.tick with
  | ok n =>
      exact ⟨Deeds.after htick (.sent (data.take n) hlive), rfl, rfl, List.prefix_append _ _⟩
  | eagain => exact Sends.of_minor htick
  | eintr => exact Sends.of_minor htick
  | err => exact Sends.of_minor htick

/-- What can be encrypted belongs to a session. -/
theorem noiseEncrypt_live
    (s : Option NoiseSession) (buf : Buf) (ct : Bytes)
    (h : (noiseEncrypt P s buf true).1 = some ct) :
    s ≠ none := by
  rintro rfl
  cases h

theorem minor_touchLastActive
    (v : View) :
    Minor v (touchLastActive E v) :=
  (Minor.tickOn v).trans (Minor.setPs v.tickOn rfl)

/-- A disconnect is nothing, or a teardown. -/
theorem peerDisconnected_deeds
    (v : View) :
    Deeds P E cmd i v (smDispatch P E i .peerDisconnected v).2 := by
  rw [smDispatch_peerDisconnected]
  by_cases h : v.ps.state = .idle
  · rw [if_pos h]
    exact Deeds.refl _
  · rw [if_neg h]
    exact Deeds.one (.torn h)

/-- The two ways a text frame can go. -/
theorem sendText_cases
    (pt : Bytes) (v : View) :
    Sends P E cmd i v (sendText P E i pt v).2 ∨
      ((sendText P E i pt v).1 ≠ .ok () ∧ ∃ u, Sends P E cmd i v u ∧
        (sendText P E i pt v).2 = (smDispatch P E i .peerDisconnected u).2) := by
  have hrem := noiseEncrypt_remote (P := P) v.ps.session (.data pt) true
  have hct := fun ct => noiseEncrypt_live (P := P) v.ps.session (.data pt) ct
  unfold sendText
  generalize noiseEncrypt P v.ps.session (.data pt) true = r at hrem hct ⊢
  obtain ⟨_ | ct, session⟩ := r
  · exact Or.inl (Sends.of_minor (minor_session v hrem))
  dsimp only at hrem ⊢
  have h1 := minor_session v hrem
  generalize hv1 : (v.setPs fun ps => { ps with session := session }) = v1 at h1 ⊢
  have hlive : v1.ps.session ≠ none := (live_of_core h1.ps).mpr (hct ct rfl)
  have h2 : Sends P E cmd i v1 (sockWrite E i (frameBytes noxMsgText v1.ps.txSeq ct) v1).2 :=
    sends_sockWrite _ hlive
  generalize sockWrite E i (frameBytes noxMsgText v1.ps.txSeq ct) v1 = w at h2 ⊢
  obtain ⟨w, v2⟩ := w
  have h12 := (Sends.of_minor h1).trans h2
  cases w with
  | ok n =>
      dsimp only at h12 ⊢
      split
      · exact Or.inr ⟨by simp, v2, h12, rfl⟩
      · exact Or.inl (h12.thenMinor ((Minor.setPs v2 rfl).trans (minor_touchLastActive _)))
  | eagain => exact Or.inr ⟨by simp, v2, h12, rfl⟩
  | eintr => exact Or.inr ⟨by simp, v2, h12, rfl⟩
  | err => exact Or.inr ⟨by simp, v2, h12, rfl⟩

theorem sendText_deeds
    (pt : Bytes) (v : View) :
    Deeds P E cmd i v (sendText P E i pt v).2 := by
  obtain h | ⟨-, u, h, heq⟩ := sendText_cases (P := P) (E := E) (i := i) pt v
  · exact h.deeds
  · rw [heq]
    exact h.deeds.trans (peerDisconnected_deeds u)

/-- A queued text that has been sent leaves what counts as it is. -/
theorem sendQueuedCallback_cases
    (text : Bytes) (v : View) :
    Sends P E cmd i v (sendQueuedCallback P E i text v).2 ∨
      ((sendQueuedCallback P E i text v).1 ≠ .ok () ∧
        Deeds P E cmd i v (sendQueuedCallback P E i text v).2) := by
  unfold sendQueuedCallback
  split
  · exact Or.inl (Sends.of_minor (Minor.refl v))
  split
  · exact Or.inl (Sends.of_minor (Minor.refl v))
  unfold sodiumMalloc
  cases E.malloc v.sh.tick with
  | false =>
      exact Or.inl (Sends.of_minor (Minor.tickOn v))
  | true =>
      dsimp only
      have h1 := Minor.tickOn v
      obtain h | ⟨herr, -⟩ :=
        sendText_cases (P := P) (E := E) (i := i) (text ++ [0]) v.tickOn
      · exact Or.inl ((Sends.of_minor h1).trans h)
      · exact Or.inr ⟨herr, (Deeds.of_minor h1).trans (sendText_deeds _ v.tickOn)⟩

theorem segmentLoop_deeds
    (msg : Bytes) (fuel offset : Nat) (v : View) :
    Deeds P E cmd i v (segmentLoop P E i msg fuel offset v).2 := by
  induction fuel generalizing offset v with
  | zero =>
      exact Deeds.refl _
  | succ fuel ih =>
      unfold segmentLoop
      split
      · dsimp only
        generalize (msg.drop offset).take (noxNextChunkSize msg offset msg.length) ++ [0] = pt
        have h : Deeds P E cmd i v (sendText P E i pt v).2 := sendText_deeds pt v
        generalize sendText P E i pt v = r at h ⊢
        obtain ⟨_ | _, v1⟩ := r
        · exact h
        · exact h.trans (ih _ v1)
      · exact Deeds.refl _

theorem sendSegmentedMessageTo_deeds
    (msg : Bytes) (v : View) :
    Deeds P E cmd i v (sendSegmentedMessageTo P E i msg v).2 := by
  unfold sendSegmentedMessageTo
  split
  · exact Deeds.refl _
  dsimp only [sodiumMalloc]
  have hticks := (Minor.tickOn v).trans (Minor.tickOn v.tickOn)
  split
  · exact Deeds.of_minor hticks
  · exact (Deeds.of_minor hticks).trans (segmentLoop_deeds msg _ _ _)

/-- The flush of a verified peer, with texts that have been taken from the queue for it. -/
theorem flushQueue_deeds
    {taken : List Bytes} (texts : List Bytes) {v : View} (hver : v.ps.peerVerified = true)
    (hghost : v.sh.ghostMode = false) (htaken : .dbProcessQueue v.ps.peerOnion taken ∈ v.sh.log)
    (hsub : texts ⊆ taken) :
    Deeds P E cmd i v (flushQueue P E i v.ps.peerOnion texts v) := by
  generalize honion : v.ps.peerOnion = onion
  induction texts generalizing v with
  | nil =>
      exact Deeds.refl _
  | cons text texts ih =>
      unfold flushQueue
      dsimp only
      obtain ⟨htext, htexts⟩ := List.cons_subset.mp hsub
      have hsend : Deeds P E cmd i v (v.emit
          [.queueSend i onion text (v.ps.session.map NoiseSession.remoteStatic)]) := by
        rw [← honion]
        exact Deeds.one (.queued taken text hver hghost htaken htext)
      generalize hu : (v.emit [Effect.queueSend i onion text _]) = u at hsend ⊢
      have hps : u.ps = v.ps ∧ u.sh.ghostMode = v.sh.ghostMode := by
        rw [← hu]
        exact ⟨rfl, rfl⟩
      have hlog : v.sh.log <+: u.sh.log := by
        rw [← hu]
        exact List.prefix_append _ _
      obtain h | ⟨herr, h⟩ :=
        sendQueuedCallback_cases (P := P) (E := E) (i := i) text u
      · generalize sendQueuedCallback P E i text u = r at h ⊢
        obtain ⟨_ | _, v1⟩ := r
        · exact hsend.trans h.deeds
        · -- the text has gone out: nothing the next one depends on has changed
          have hver1 : v1.ps.peerVerified = true := by
            have := congrArg PeerSession.peerVerified h.ps
            exact this.trans ((congrArg PeerSession.peerVerified hps.1).trans hver)
          have hghost1 : v1.sh.ghostMode = false :=
            (congrArg Shared.ghostMode h.sh).trans (hps.2.trans hghost)
          have honion1 : v1.ps.peerOnion = onion := by
            have := congrArg PeerSession.peerOnion h.ps
            exact this.trans ((congrArg PeerSession.peerOnion hps.1).trans honion)
          have htaken1 : .dbProcessQueue v1.ps.peerOnion taken ∈ v1.sh.log := by
            rw [honion1, ← honion]
            exact (hlog.trans h.log).subset htaken
          exact (hsend.trans h.deeds).trans (ih hver1 hghost1 htaken1 htexts honion1)
      · generalize sendQueuedCallback P E i text u = r at herr h ⊢
        obtain ⟨_ | _, v1⟩ := r
        · exact hsend.trans h
        · exact absurd rfl herr

theorem flushOnFirst_deeds
    (v : View) :
    Deeds P E cmd i v (flushOnFirst P E i v) := by
  unfold flushOnFirst
  split
  · rename_i hflush
    split
    · dsimp only
      refine Deeds.of_minor (Minor.trans ?_ (Minor.setPs _ rfl))
      split
      · exact Minor.say _ _ _ v
      · exact Minor.say _ _ _ v
    · rename_i hver
      unfold dbProcessQueue
      have hflag : Minor v (v.setPs fun ps => { ps with queueFlushed := true }) :=
        Minor.setPs v rfl
      split
      · exact Deeds.of_minor hflag
      · dsimp only
        generalize ((E.dbPending (v.setPs fun ps =>
          { ps with queueFlushed := true }).sh.tick v.ps.peerOnion).take 256).map cstr = texts
        generalize hu : ((v.setPs fun ps => { ps with queueFlushed := true }).tickOn.emit
          [.dbProcessQueue v.ps.peerOnion texts]) = u
        have hu1 : Minor v u := by
          rw [← hu]
          exact (hflag.trans (Minor.tickOn _)).thenEmit rfl
        have hu2 : u.ps.peerVerified = true ∧ u.ps.peerOnion = v.ps.peerOnion ∧
            u.sh.ghostMode = false ∧ .dbProcessQueue v.ps.peerOnion texts ∈ u.sh.log := by
          rw [← hu]
          refine ⟨by simpa using hver, rfl, hflush.2, ?_⟩
          exact List.mem_append_right _ List.mem_cons_self
        obtain ⟨hver2, honion2, hghost2, htaken2⟩ := hu2
        rw [← honion2] at htaken2 ⊢
        exact (Deeds.of_minor hu1).trans
          (flushQueue_deeds _ hver2 hghost2 htaken2 (List.Subset.refl texts))
  · exact Deeds.refl _

end Sending

section FileTx

variable {P : Primitives} {E : Env} {cmd : Cmd} {i : Slot}

theorem minor_txClear
    (v : View) :
    Minor v (txClear v) :=
  Minor.setPs v rfl

/-- Give up sending, with a message. -/
theorem minor_txClear_say
    (kind : UiKind) (text : String) (args : List Bytes) {v u : View} (h : Minor v u) :
    Minor v (txClear (u.say kind text args)) :=
  (h.trans (Minor.say kind text args u)).trans (minor_txClear _)

theorem minor_openSource
    (v : View) :
    Minor v (openSource E v).2 := by
  have h1 := Minor.tickOn v
  have h2 := h1.trans (Minor.tickOn v.tickOn)
  have h3 := h2.trans (Minor.tickOn v.tickOn.tickOn)
  unfold openSource
  cases E.openFile v.sh.tick with
  | none =>
      exact h1.trans (Minor.say _ _ _ _)
  | some fileFd =>
      dsimp only
      cases E.fileStat v.tickOn.sh.tick with
      | none =>
          exact h2.trans (Minor.say _ _ _ _)
      | some st =>
          dsimp only
          split
          · exact h2.trans (Minor.say _ _ _ _)
          split
          · exact h3.trans (Minor.say _ _ _ _)
          split
          · exact h3.trans (Minor.say _ _ _ _)
          split
          · exact h3.trans (Minor.say _ _ _ _)
          · exact h3

theorem minor_hashCall
    (message : String) (v : View) :
    Minor v (hashCall E message v).2 := by
  unfold hashCall
  split
  · exact Minor.tickOn v
  · exact (Minor.tickOn v).trans (Minor.say _ _ _ _)

theorem minor_hashLoop
    (reads : List ReadResult) (acc : Bytes) (v : View) :
    Minor v (hashLoop E reads acc v).2 := by
  induction reads generalizing acc v with
  | nil =>
      exact Minor.refl v
  | cons r reads ih =>
      cases r with
      | data b =>
          cases b with
          | nil =>
              exact Minor.refl v
          | cons x b =>
              have h := minor_hashCall (E := E) "Hash güncellenemedi" v
              unfold hashLoop
              generalize hashCall E "Hash güncellenemedi" v = r at h ⊢
              obtain ⟨_ | _, v1⟩ := r
              · exact h
              · exact h.trans (ih _ v1)
      | eintr =>
          exact ih acc v
      | eagain =>
          exact Minor.say _ _ _ v
      | err =>
          exact Minor.say _ _ _ v

theorem minor_hashSource
    (size : Nat) (v : View) :
    Minor v (hashSource P E size v).2 := by
  unfold hashSource
  have h1 := minor_hashCall (E := E) "Hash state başlatılamadı" v
  generalize hashCall E "Hash state başlatılamadı" v = r at h1 ⊢
  obtain ⟨_ | _, v1⟩ := r
  · exact h1
  have h2 := minor_hashCall (E := E) "Hash güncellenemedi" v1
  dsimp only at h1 ⊢
  generalize hashCall E "Hash güncellenemedi" v1 = r at h2 ⊢
  obtain ⟨_ | _, v2⟩ := r
  · exact h1.trans h2
  have h3 := minor_hashLoop (E := E) (E.hashReads v2.sh.tick) (be64 size) v2.tickOn
  dsimp only at h2 ⊢
  generalize hashLoop E (E.hashReads v2.sh.tick) (be64 size) v2.tickOn = r at h3 ⊢
  have h23 := (h1.trans h2).trans ((Minor.tickOn v2).trans h3)
  obtain ⟨_ | absorbed, v3⟩ := r
  · exact h23
  have h4 := minor_hashCall (E := E) "Hash tamamlanamadı" v3
  dsimp only at h23 ⊢
  generalize hashCall E "Hash tamamlanamadı" v3 = r at h4 ⊢
  obtain ⟨_ | _, v4⟩ := r
  · exact h23.trans h4
  have h5 := (h23.trans h4).trans (Minor.tickOn v4)
  dsimp only at h5 ⊢
  split
  · exact h5.trans (Minor.say _ _ _ _)
  · exact h5

theorem sends_sendMetadata
    (name : Bytes) (v : View) :
    Sends P E cmd i v (sendMetadata P E i name v) := by
  unfold sendMetadata
  dsimp only
  generalize metadataBytes name v.ps.txFile.totalSize v.ps.txFile.hash = record
  have hrem := noiseEncrypt_remote (P := P) v.ps.session (.data record) true
  have hct := fun ct => noiseEncrypt_live (P := P) v.ps.session (.data record) ct
  generalize noiseEncrypt P v.ps.session (.data record) true = r at hrem hct ⊢
  obtain ⟨_ | ct, session⟩ := r
  · exact Sends.of_minor (minor_txClear_say _ _ _ (minor_session v hrem))
  dsimp only at hrem ⊢
  have h1 := minor_session v hrem
  generalize (v.setPs fun ps => { ps with session := session }) = v1 at h1 ⊢
  have hlive : v1.ps.session ≠ none := (live_of_core h1.ps).mpr (hct ct rfl)
  have h2 : Sends P E cmd i v1 (sockWrite E i (frameBytes noxMsgFile v1.ps.txSeq ct) v1).2 :=
    sends_sockWrite _ hlive
  generalize sockWrite E i (frameBytes noxMsgFile v1.ps.txSeq ct) v1 = w at h2 ⊢
  obtain ⟨w, v2⟩ := w
  have h12 := (Sends.of_minor h1).trans h2
  cases w with
  | ok n =>
      dsimp only at h12 ⊢
      split
      · exact h12.thenMinor (minor_txClear_say _ _ _ (Minor.refl v2))
      · exact h12.thenMinor ((Minor.setPs v2 rfl).trans (Minor.say _ _ _ _))
  | eagain => exact h12.thenMinor (minor_txClear_say _ _ _ (Minor.refl v2))
  | eintr => exact h12.thenMinor (minor_txClear_say _ _ _ (Minor.refl v2))
  | err => exact h12.thenMinor (minor_txClear_say _ _ _ (Minor.refl v2))

/-- Sending a file leaves what counts as it is from the start. -/
theorem sends_fileTransferStart
    (filepath : Bytes) (v : View) :
    Sends P E cmd i v (fileTransferStart P E i filepath v) := by
  unfold fileTransferStart
  split
  · exact Sends.of_minor (Minor.say _ _ _ v)
  split
  · exact Sends.of_minor (Minor.say _ _ _ v)
  split
  · exact Sends.of_minor (Minor.say _ _ _ v)
  have h1 := minor_openSource (E := E) v
  generalize openSource E v = r at h1 ⊢
  obtain ⟨_ | ⟨fileFd, size⟩, v1⟩ := r
  · exact Sends.of_minor h1
  have h2 := minor_hashSource (P := P) (E := E) size v1
  dsimp only at h1 ⊢
  generalize hashSource P E size v1 = r at h2 ⊢
  obtain ⟨_ | hash, v2⟩ := r
  · exact Sends.of_minor (h1.trans h2)
  dsimp only [sodiumMalloc] at h2 ⊢
  generalize hv3 : (v2.setPs _) = v3
  have h3 : Minor v v3 := by
    rw [← hv3]
    exact (h1.trans h2).trans (Minor.setPs v2 rfl)
  have h4 := h3.trans (Minor.tickOn v3)
  cases E.malloc v3.sh.tick with
  | false =>
      exact Sends.of_minor (minor_txClear_say _ _ _ h4)
  | true =>
      exact (Sends.of_minor (h4.trans (Minor.setPs v3.tickOn rfl))).trans (sends_sendMetadata _ _)

theorem minor_txFrameDone
    (v : View) :
    Minor v (txFrameDone v) := by
  unfold txFrameDone
  dsimp only
  generalize hv1 : (v.setPs _) = v1
  have h1 : Minor v v1 := by
    rw [← hv1]
    exact Minor.setPs v rfl
  split
  · exact minor_txClear_say _ _ _ h1
  · exact h1.trans (Minor.say _ _ _ _)

theorem minor_txAdvance
    (n : Nat) (v : View) :
    Minor v (txAdvance E n v) := by
  unfold txAdvance
  dsimp only
  generalize hv1 : touchLastActive E _ = v1
  have h1 : Minor v v1 := by
    rw [← hv1]
    exact (Minor.setPs v rfl).trans (minor_touchLastActive _)
  split
  · exact h1.trans (minor_txFrameDone v1)
  · exact h1

theorem sends_txFlush
    {v : View} (hlive : v.ps.session ≠ none) :
    Sends P E cmd i v (txFlush E i v) := by
  unfold txFlush
  have h1 : Sends P E cmd i v (sockWrite E i v.ps.txFile.pending v).2 :=
    sends_sockWrite _ hlive
  generalize sockWrite E i v.ps.txFile.pending v = w at h1 ⊢
  obtain ⟨w, v1⟩ := w
  cases w with
  | ok n =>
      dsimp only at h1 ⊢
      split
      · exact h1.thenMinor (minor_txClear_say _ _ _ (Minor.refl v1))
      · exact h1.thenMinor (minor_txAdvance n v1)
  | eagain => exact h1
  | eintr => exact h1
  | err => exact h1.thenMinor (minor_txClear_say _ _ _ (Minor.refl v1))

theorem minor_txBuffer
    (chunk : Bytes) (v : View) :
    Minor v (txBuffer P chunk v) := by
  unfold txBuffer
  dsimp only
  generalize hv1 : (v.setPs _) = v1
  have h1 : Minor v v1 := by
    rw [← hv1]
    exact Minor.setPs v rfl
  split
  · exact minor_txClear_say _ _ _ h1
  have hrem := noiseEncrypt_remote (P := P) v1.ps.session (.data chunk) true
  generalize noiseEncrypt P v1.ps.session (.data chunk) true = r at hrem ⊢
  obtain ⟨_ | ct, session⟩ := r
  · exact minor_txClear_say _ _ _ (h1.trans (minor_session v1 hrem))
  dsimp only at hrem ⊢
  have h2 := h1.trans (minor_session v1 hrem)
  split
  · exact h1.trans (Minor.setPs v1 (core_session hrem))
  · exact minor_txClear_say _ _ _ h2

theorem minor_txNext
    (v : View) :
    Minor v (txNext P E v) := by
  unfold txNext
  dsimp only
  split
  · exact minor_txClear v
  have h1 := Minor.tickOn v
  cases E.fileRead v.sh.tick with
  | data b =>
      dsimp only
      split
      · exact minor_txClear_say _ _ _ h1
      · exact h1.trans (minor_txBuffer _ v.tickOn)
  | eintr => exact h1
  | eagain => exact minor_txClear_say _ _ _ h1
  | err => exact minor_txClear_say _ _ _ h1

theorem sends_fileTransferHandleTx
    {v : View} (hlive : v.ps.txFile.active = true → v.ps.session ≠ none) :
    Sends P E cmd i v (fileTransferHandleTx P E i v) := by
  unfold fileTransferHandleTx
  split
  · exact Sends.of_minor (Minor.refl v)
  rename_i hact
  split
  · exact sends_txFlush (hlive (by simpa using fun h => hact (Or.inr h)))
  · exact Sends.of_minor (minor_txNext v)

end FileTx

section FileRx

variable {P : Primitives} {E : Env} {cmd : Cmd} {i : Slot} {v : View}

theorem openatExcl_cases
    (name : Bytes) (v : View) :
    (∃ fd, openatExcl E i name v = (.fd fd, v.tickOn.emit [.fileCreate i name])) ∨
      openatExcl E i name v = (.eexist, v.tickOn) ∨ openatExcl E i name v = (.err, v.tickOn) := by
  unfold openatExcl
  cases E.openat v.sh.tick with
  | fd fd => exact Or.inl ⟨fd, rfl⟩
  | eexist => exact Or.inr (Or.inl rfl)
  | err => exact Or.inr (Or.inr rfl)

/-- `open_recv_file` creates nothing, or one file whose name it records. -/
inductive RecvOpened (i : Slot) (v : View) : Except NoxErr Nat × View → Prop
  | failed (err : NoxErr) (u : View) (h : Minor v u) : RecvOpened i v (.error err, u)
  | created (fd : Nat) (name : Bytes) (u : View) (h : Minor v u) (hps : u.ps = v.ps)
      (hlog : u.sh.log = v.sh.log) (hname : name ≠ []) (hdir : v.sh.downloadsDirFd ≥ 0) :
      RecvOpened i v (.ok fd, (u.emit [.fileCreate i name]).setPs fun ps =>
        { ps with rxFile := { ps.rxFile with localName := name } })

theorem openRecvFile_cases
    (safeName : Bytes) (v : View) :
    RecvOpened i v (openRecvFile E i safeName v) := by
  unfold openRecvFile
  split
  · exact .failed _ _ (Minor.refl v)
  split
  · exact .failed _ _ (Minor.refl v)
  rename_i hdir
  have hdir' : v.sh.downloadsDirFd ≥ 0 := Int.not_lt.mp hdir
  have h1 := Minor.tickOn v
  split
  · exact .failed _ _ h1
  dsimp only
  split
  · exact .failed _ _ h1
  have hne : ∀ suffix, receivedTag ++ safeName ++ suffix ≠ [] := by
    intro suffix
    simp [receivedTag]
  have hps1 : v.tickOn.ps = v.ps := rfl
  have hlog1 : v.tickOn.sh.log = v.sh.log := rfl
  generalize v.tickOn = v1 at h1 hps1 hlog1 ⊢
  have h2 := h1.trans (Minor.tickOn v1)
  obtain ⟨fd, hopen⟩ | hopen | hopen :=
    openatExcl_cases (E := E) (i := i) (receivedTag ++ safeName) v1
  · rw [hopen]
    exact .created fd _ v1.tickOn h2 hps1 hlog1 (by simpa using hne []) hdir'
  · rw [hopen]
    dsimp only
    have hps2 : v1.tickOn.ps = v.ps := hps1
    have hlog2 : v1.tickOn.sh.log = v.sh.log := hlog1
    generalize v1.tickOn = v2 at h2 hps2 hlog2 ⊢
    generalize hex8 (E.random v2.sh.tick) = rnd
    have h3 := h2.trans (Minor.tickOn v2)
    split
    · exact .failed _ _ h3
    rw [List.append_assoc (receivedTag ++ safeName)]
    have hne' := hne ([0x2e] ++ rnd)
    generalize receivedTag ++ safeName ++ ([0x2e] ++ rnd) = second at hne' ⊢
    have hps3 : v2.tickOn.ps = v.ps := hps2
    have hlog3 : v2.tickOn.sh.log = v.sh.log := hlog2
    generalize v2.tickOn = v3 at h3 hps3 hlog3 ⊢
    have h4 := h3.trans (Minor.tickOn v3)
    obtain ⟨fd, hopen⟩ | hopen | hopen := openatExcl_cases (E := E) (i := i) second v3
    · rw [hopen]
      exact .created fd second v3.tickOn h4 hps3 hlog3 hne' hdir'
    · rw [hopen]
      exact .failed _ _ h4
    · rw [hopen]
      exact .failed _ _ h4
  · rw [hopen]
    exact .failed _ _ h2

/-- Leaving `ST_FILE_RX`. -/
theorem minor_rxFinish
    (hst : v.ps.state = .fileRx) :
    Minor (rxOver v) (rxFinish P E i v) := by
  unfold rxFinish
  rw [smDispatch_fileDone (v := v.setPs fun ps => { ps with rxFile := { fd := -1 } }) hst]
  exact Minor.of_eq rfl rfl rfl

/-- What `rx_abort` deletes. -/
def abortUnlinks (i : Slot) (v : View) : List Effect :=
  if v.sh.downloadsDirFd ≥ 0 ∧ v.ps.rxFile.localName ≠ [] then
    [.fileUnlink i v.ps.rxFile.localName]
  else []

theorem abortUnlinks_eq
    (hrx : v.ps.rxFile.active = true) :
    abortUnlinks i v = unlinkPartial i v := by
  simp [abortUnlinks, unlinkPartial, hrx]

theorem minor_rxAbort
    (hst : v.ps.state = .fileRx) :
    Minor (rxOver (v.emit (abortUnlinks i v))) (rxAbort P E i v) := by
  have h := minor_rxFinish (P := P) (E := E) (i := i)
    (v := (v.emit (abortUnlinks i v)).uiPrintError
      "Transfer iptal edildi ve yarım kalan dosya silindi." []) hst
  have hsay : Minor (rxOver (v.emit (abortUnlinks i v)))
      (rxOver ((v.emit (abortUnlinks i v)).uiPrintError
        "Transfer iptal edildi ve yarım kalan dosya silindi." [])) :=
    Minor.of_eq rfl rfl rfl
  exact hsay.trans h

/-- An abort after the file has perhaps been written to. -/
theorem rxAbort_deeds
    {u : View} (es : List Effect) (hst : v.ps.state = .fileRx) (hrx : v.ps.rxFile.active = true)
    (hes : ∀ e ∈ es, ∃ data, e = .fileWrite i v.ps.rxFile.localName data)
    (hu : Minor (v.emit es) u) (hps : u.ps = v.ps) (hlog : u.sh.log = v.sh.log ++ es) :
    Deeds P E cmd i v (rxAbort P E i u) := by
  have hdir : u.sh.core.downloadsDirFd = v.sh.core.downloadsDirFd :=
    congrArg Shared.downloadsDirFd hu.sh
  change u.sh.downloadsDirFd = v.sh.downloadsDirFd at hdir
  have hun : abortUnlinks i u = unlinkPartial i v := by
    rw [← abortUnlinks_eq hrx]
    unfold abortUnlinks
    rw [hdir, hps]
  have habort := minor_rxAbort (P := P) (E := E) (i := i) (v := u) (by rw [hps]; exact hst)
  refine Deeds.before (.rxDropped es (unlinkPartial i v) hst hrx hes (Or.inl rfl))
    (Minor.trans ?_ habort)
  rw [hun]
  refine Minor.of_eq ?_ ?_ ?_
  · show ({ u.ps with state := .active, rxFile := {} } : PeerSession).core = _
    rw [hps]
    rfl
  · exact hu.sh
  · simp [rxOver, hlog]

theorem hashCall_keeps
    (message : String) (v : View) :
    (hashCall E message v).2.ps = v.ps ∧ (hashCall E message v).2.sh.core = v.sh.core ∧
      (hashCall E message v).2.sh.log = v.sh.log := by
  unfold hashCall
  split <;> exact ⟨rfl, rfl, rfl⟩

/-- The file has been created: the transfer starts, or the file is deleted again. -/
theorem rxBegin_cases
    (fileFd : Nat) (safeName : Bytes) (size : Nat) (hash : Block 32) (hst : v.ps.state = .active) :
    Minor (v.setPs fun ps =>
        { ps with state := .fileRx, rxFile := newRx ps.rxFile.localName size hash })
      (rxBegin P E i fileFd safeName size hash v) ∨
    Minor ((v.emit (abortUnlinks i v)).setPs fun ps => { ps with rxFile := {} })
      (rxBegin P E i fileFd safeName size hash v) := by
  unfold rxBegin
  dsimp only
  generalize hv1 : (v.tickOn.setPs _) = v1
  have hst1 : v1.ps.state = .active := by
    rw [← hv1]
    exact hst
  rw [smDispatch_fileRxStart hst1]
  dsimp only
  generalize hv2 : (v1.setPs fun ps => { ps with state := .fileRx }) = v2
  have hsh2 : v2.sh.core = v.sh.core ∧ v2.sh.log = v.sh.log := by
    rw [← hv2, ← hv1]
    exact ⟨rfl, rfl⟩
  have hps2 : v2.ps = { v.ps with
      state := .fileRx
      rxFile := { v.ps.rxFile with
        active := true
        fd := fileFd
        expectedSize := size
        receivedBytes := 0
        lastChunkTs := E.clock v.sh.tick
        expectedHash := hash
        filename := strCopy 255 safeName } } := by
    rw [← hv2, ← hv1]
    rfl
  have habort : ∀ u : View, u.ps = v2.ps → u.sh.core = v2.sh.core → u.sh.log = v2.sh.log →
      Minor ((v.emit (abortUnlinks i v)).setPs fun ps => { ps with rxFile := {} })
        (rxAbort P E i u) := by
    intro u hups husc hulog
    have hust : u.ps.state = .fileRx := by
      rw [hups, hps2]
    have hdir : u.sh.core.downloadsDirFd = v.sh.core.downloadsDirFd :=
      congrArg Shared.downloadsDirFd (husc.trans hsh2.1)
    change u.sh.downloadsDirFd = v.sh.downloadsDirFd at hdir
    have hun : abortUnlinks i u = abortUnlinks i v := by
      unfold abortUnlinks
      rw [hdir, hups, hps2]
    have h := minor_rxAbort (P := P) (E := E) (i := i) hust
    rw [hun] at h
    refine Minor.trans (Minor.of_eq ?_ ?_ ?_) h
    · show ({ u.ps with state := .active, rxFile := {} } : PeerSession).core = _
      rw [hups, hps2, ← hst]
      rfl
    · exact husc.trans hsh2.1
    · simp [rxOver, hulog, hsh2.2]
  have h1 := hashCall_keeps (E := E) "Hash state başlatılamadı" v2
  generalize hashCall E "Hash state başlatılamadı" v2 = r at h1 ⊢
  obtain ⟨_ | _, v3⟩ := r
  · exact Or.inr (habort v3 h1.1 h1.2.1 h1.2.2)
  dsimp only at h1 ⊢
  have h2 := hashCall_keeps (E := E) "Hash güncellenemedi" v3
  generalize hashCall E "Hash güncellenemedi" v3 = r at h2 ⊢
  obtain ⟨_ | _, v4⟩ := r
  · exact Or.inr (habort v4 (h2.1.trans h1.1) (h2.2.1.trans h1.2.1) (h2.2.2.trans h1.2.2))
  dsimp only at h2 ⊢
  refine Or.inl (Minor.trans (Minor.of_eq ?_ ?_ ?_) (Minor.say _ _ _ _))
  · show ({ v4.ps with rxFile := { v4.ps.rxFile with hashState := be64 size } } :
      PeerSession).core = _
    rw [h2.1, h1.1, hps2]
    rfl
  · exact (h2.2.1.trans h1.2.1).trans hsh2.1
  · exact (h2.2.2.trans h1.2.2).trans hsh2.2

/-- A slot that is not receiving is not changed by clearing `rx_file`. -/
theorem rxMetadata_deeds
    (pt : Bytes) (hst : v.ps.state = .active) (hrx : v.ps.rxFile.active = false)
    (hlen : pt.length = 305) (htag : pt.take 9 = metadataTag)
    (hrec : ∃ pre, v.sh.log = pre ++ [.fileRecord i pt]) :
    Deeds P E cmd i v (rxMetadata P E i pt v) := by
  unfold rxMetadata
  dsimp only
  have h1 := Minor.tickOn v
  generalize hsafe : sanitizeFilename _ 256 _ = safeName
  split
  · exact Deeds.of_minor (h1.trans (Minor.say _ _ _ _))
  rename_i hsize
  generalize hsz : ofBe ((pt.drop 265).take 8) = size at hsize ⊢
  cases E.statvfs v.tickOn.sh.tick with
  | none =>
      exact Deeds.of_minor (h1.trans ((Minor.tickOn v.tickOn).trans (Minor.say _ _ _ _)))
  | some vfs =>
      obtain ⟨bavail, frsize⟩ := vfs
      dsimp only
      have h2 := h1.trans (Minor.tickOn v.tickOn)
      split
      · exact Deeds.of_minor (h2.trans (Minor.say _ _ _ _))
      split
      · exact Deeds.of_minor (h2.trans (Minor.say _ _ _ _))
      generalize hu : (v.tickOn.tickOn.setPs fun ps => { ps with rxFile := {} }) = u
      have hups : u.ps = { v.ps with rxFile := {} } := by
        rw [← hu]
        rfl
      have hulog : u.sh.log = v.sh.log := by
        rw [← hu]
        rfl
      have hmu : Deeds P E cmd i v u := by
        rw [← hu]
        exact Deeds.after h2 (.rxCleared hrx)
      have hopen := openRecvFile_cases (E := E) (i := i) safeName u
      generalize openRecvFile E i safeName u = r at hopen ⊢
      cases hopen with
      | failed err w hw =>
          exact hmu.trans (Deeds.of_minor (hw.trans (Minor.say _ _ _ _)))
      | created fd name w hw hps hlog hname hdir =>
          dsimp only
          have hmw := hmu.trans (Deeds.of_minor hw)
          have hwclear : w.ps.rxFile = {} := by
            rw [hps, hups]
          have hwst : w.ps.state = .active := by
            rw [hps, hups]
            exact hst
          have hwrx : w.ps.rxFile.active = false := by
            rw [hps, hups]
          have hwdir : w.sh.downloadsDirFd ≥ 0 := by
            have h := congrArg Shared.downloadsDirFd hw.sh
            change w.sh.downloadsDirFd = u.sh.downloadsDirFd at h
            rw [h]
            exact hdir
          have hwrec : ∃ pre, w.sh.log = pre ++ [.fileRecord i pt] := by
            rw [hlog, hulog]
            exact hrec
          generalize hx : ((w.emit [.fileCreate i name]).setPs fun ps =>
            { ps with rxFile := { ps.rxFile with localName := name } }) = x
          have hxps : x.ps = { w.ps with rxFile := { w.ps.rxFile with localName := name } } := by
            rw [← hx]
            rfl
          have hxsh : x.sh.core = w.sh.core ∧ x.sh.log = w.sh.log ++ [.fileCreate i name] ∧
              x.sh.downloadsDirFd = w.sh.downloadsDirFd := by
            rw [← hx]
            exact ⟨rfl, rfl, rfl⟩
          refine hmw.trans ?_
          obtain h | h := rxBegin_cases (P := P) (E := E) (i := i) (v := x) fd safeName size
            (Block.ofBytes 32 (pt.drop 273)) (by rw [hxps]; exact hwst)
          · have hann : Announces pt size (Block.ofBytes 32 (pt.drop 273)) :=
              ⟨hlen, htag, hsz, rfl⟩
            refine Deeds.before (.rxOpened pt name size _ hwst hwrx hwdir hname hwrec hann
              (by omega)) (Minor.trans (Minor.of_eq ?_ ?_ ?_) h)
            · rw [View.setPs_ps, View.setPs_ps, hxps]
              rfl
            · exact hxsh.1
            · exact hxsh.2.1
          · have hun : abortUnlinks i x = [.fileUnlink i name] := by
              unfold abortUnlinks
              rw [if_pos]
              · rw [hxps]
              · rw [hxps, hxsh.2.2]
                exact ⟨hwdir, hname⟩
            rw [hun] at h
            refine Deeds.before (.rxStillborn name hwst hwrx)
              (Minor.trans (Minor.of_eq ?_ ?_ ?_) h)
            · rw [View.setPs_ps, View.emit_ps, hxps]
              simp [PeerSession.core, FileRx.core, hwclear]
            · exact hxsh.1
            · simp [hxsh.2.1]

/-- A write that succeeds has written everything. -/
theorem writeToFile_all
    (rs : List IoResult) (data : Bytes) (h : (writeToFile rs data).1 = true) :
    (writeToFile rs data).2 = data := by
  fun_induction writeToFile rs data with
  | case1 => rfl
  | case2 => cases h
  | case3 rs data hne ih => exact ih h
  | case4 n rs data hne r ih =>
      simp only [r] at h ⊢
      rw [ih h, List.take_append_drop]
  | case5 => cases h

/-- The last chunk is in. -/
theorem rxComplete_deeds
    {u : View} (data : Bytes) (hst : v.ps.state = .fileRx) (hrx : v.ps.rxFile.active = true)
    (hall : v.ps.rxFile.receivedBytes + data.length = v.ps.rxFile.expectedSize)
    (hps : u.ps = { v.ps with rxFile := { v.ps.rxFile.grow data with
      lastChunkTs := u.ps.rxFile.lastChunkTs } })
    (hsh : u.sh.core = v.sh.core)
    (hlog : u.sh.log = v.sh.log ++ [.fileWrite i v.ps.rxFile.localName data]) :
    Deeds P E cmd i v (rxComplete P E i u) := by
  have hust : u.ps.state = .fileRx := by
    rw [hps]
    exact hst
  have hname : u.ps.rxFile.localName = v.ps.rxFile.localName := by
    rw [hps]
    rfl
  have hover : ∀ w : View, w.ps = u.ps → w.sh.core = u.sh.core →
      (rxOver w).ps.core = (rxOver v).ps.core ∧ (rxOver w).sh.core = v.sh.core := by
    intro w hwps hwsh
    constructor
    · show ({ w.ps with state := .active, rxFile := {} } : PeerSession).core = _
      rw [hwps, hps]
      rfl
    · exact hwsh.trans hsh
  -- both failures delete the file
  have hdrop : ∀ w : View, w.ps = u.ps → w.sh.core = u.sh.core →
      w.sh.log = u.sh.log ++ [.fileUnlink i u.ps.rxFile.localName] →
      Deeds P E cmd i v (rxFinish P E i w) := by
    intro w hwps hwsh hwlog
    obtain ⟨hc1, hc2⟩ := hover w hwps hwsh
    have hfin := minor_rxFinish (P := P) (E := E) (i := i) (v := w) (by rw [hwps]; exact hust)
    refine Deeds.before (.rxDropped [.fileWrite i v.ps.rxFile.localName data]
      [.fileUnlink i v.ps.rxFile.localName] hst hrx ?_ (Or.inr rfl))
      (Minor.trans (Minor.of_eq hc1 hc2 ?_) hfin)
    · intro e he
      exact ⟨data, List.mem_singleton.mp he⟩
    · simp [rxOver, hwlog, hlog, hname]
  unfold rxComplete
  dsimp only
  split
  · exact hdrop _ (by simp) (by simp) (by simp)
  split
  · rename_i hhash
    obtain ⟨hc1, hc2⟩ := hover ((u.tickOn.emit [.fileDone i u.ps.rxFile.localName]).uiPrintSystem
      "[✓] Dosya başarıyla alındı: %s" [u.ps.rxFile.filename]) (by simp) (by simp)
    have hfin := minor_rxFinish (P := P) (E := E) (i := i)
      (v := (u.tickOn.emit [.fileDone i u.ps.rxFile.localName]).uiPrintSystem
        "[✓] Dosya başarıyla alındı: %s" [u.ps.rxFile.filename]) hust
    refine Deeds.before (.rxCompleted data hst hrx hall ?_)
      (Minor.trans (Minor.of_eq hc1 hc2 ?_) hfin)
    · rw [hps] at hhash
      exact hhash
    · simp [rxOver, hlog, hname]
  · exact hdrop _ (by simp) (by simp) (by simp)

theorem rxData_deeds
    (pt : Bytes) (hst : v.ps.state = .fileRx) (hrx : v.ps.rxFile.active = true) :
    Deeds P E cmd i v (rxData P E i pt v) := by
  have habort : ∀ (es : List Effect) (u : View),
      (∀ e ∈ es, ∃ data, e = .fileWrite i v.ps.rxFile.localName data) →
      Minor (v.emit es) u → u.ps = v.ps → u.sh.log = v.sh.log ++ es →
      Deeds P E cmd i v (rxAbort P E i u) :=
    fun es u hes hu hps hlog => rxAbort_deeds es hst hrx hes hu hps hlog
  have hnone : Deeds P E cmd i v (rxAbort P E i v) :=
    habort [] v (fun e he => absurd he List.not_mem_nil)
      (Minor.of_eq rfl rfl (List.append_nil _).symm) rfl (List.append_nil _).symm
  unfold rxData
  dsimp only
  split
  · exact hnone
  split
  · exact hnone
  rename_i hle hrem
  generalize hdata : pt.take (v.ps.rxFile.expectedSize - v.ps.rxFile.receivedBytes) = data
  have hdlen : data.length ≤ v.ps.rxFile.expectedSize - v.ps.rxFile.receivedBytes := by
    rw [← hdata]
    exact List.length_take_le _ _
  have hall := writeToFile_all (E.fileWrites v.sh.tick) data
  generalize writeToFile (E.fileWrites v.sh.tick) data = written at hall ⊢
  obtain ⟨ok, written⟩ := written
  have hes : ∀ e ∈ [Effect.fileWrite i v.ps.rxFile.localName written],
      ∃ data, e = .fileWrite i v.ps.rxFile.localName data := by
    intro e he
    exact ⟨written, List.mem_singleton.mp he⟩
  generalize hv1 : (v.tickOn.emit [Effect.fileWrite i v.ps.rxFile.localName written]) = v1
  have h1 : Minor (v.emit [Effect.fileWrite i v.ps.rxFile.localName written]) v1 := by
    rw [← hv1]
    exact Minor.of_eq rfl rfl rfl
  have hps1 : v1.ps = v.ps := by
    rw [← hv1]
    rfl
  have hsh1 : v1.sh.core = v.sh.core ∧
      v1.sh.log = v.sh.log ++ [.fileWrite i v.ps.rxFile.localName written] := by
    rw [← hv1]
    exact ⟨by simp, by simp⟩
  cases ok with
  | false =>
      exact habort _ v1 hes h1 hps1 hsh1.2
  | true =>
      have hwritten : written = data := hall rfl
      subst hwritten
      dsimp only
      rw [if_neg (by decide)]
      split
      · exact habort _ v1.tickOn hes (h1.trans (Minor.tickOn v1)) hps1 hsh1.2
      generalize hv3 : (v1.tickOn.tickOn.setPs _) = v3
      have hps3 : v3.ps = { v.ps with rxFile := { v.ps.rxFile.grow written with
          lastChunkTs := v3.ps.rxFile.lastChunkTs } } := by
        rw [← hv3, ← hps1]
        rfl
      have hsh3 : v3.sh.core = v.sh.core ∧
          v3.sh.log = v.sh.log ++ [.fileWrite i v.ps.rxFile.localName written] := by
        rw [← hv3, View.setPs_sh, View.tickOn_core, View.tickOn_core, View.tickOn_log,
          View.tickOn_log]
        exact hsh1
      have hrecv : v3.ps.rxFile.receivedBytes = v.ps.rxFile.receivedBytes + written.length ∧
          v3.ps.rxFile.expectedSize = v.ps.rxFile.expectedSize := by
        rw [hps3]
        exact ⟨rfl, rfl⟩
      rw [hrecv.1, hrecv.2]
      split
      · rw [if_neg (by omega)]
        exact rxComplete_deeds written hst hrx (by omega) hps3 hsh3.1 hsh3.2
      · refine Deeds.before (.rxGrown written hst hrx (by omega))
          (Minor.trans (Minor.of_eq ?_ hsh3.1 hsh3.2) (Minor.say _ _ _ _))
        rw [hps3]
        simp [PeerSession.core, FileRx.core, FileRx.grow, hrx]

/-- Only a slot in `ST_FILE_RX` is receiving. -/
theorem fileRx_of_active
    (hok : (life v).Ok) (hrx : v.ps.rxFile.active = true) :
    v.ps.state = .fileRx := by
  have hslot := hok.1
  unfold SlotLife.Ok at hslot
  cases hst : v.ps.state <;> simp [life, slotLife, hst, hrx] at hslot ⊢

theorem rxRecord_deeds
    (pt : Bytes) (hok : (life v).Ok) (hst : v.ps.state.InSession)
    (hrec : ∃ pre, v.sh.log = pre ++ [.fileRecord i pt]) :
    Deeds P E cmd i v (rxRecord P E i pt v) := by
  have hslot := hok.1
  unfold SlotLife.Ok at hslot
  have hwhere : (v.ps.rxFile.active = true ∧ v.ps.state = .fileRx) ∨
      (v.ps.rxFile.active = false ∧ v.ps.state = .active) := by
    obtain h | h := hst
    · simp only [life, slotLife, h] at hslot
      exact Or.inr ⟨hslot.2.2.2, h⟩
    · simp only [life, slotLife, h] at hslot
      exact Or.inl ⟨hslot.2.2.2, h⟩
  unfold rxRecord
  obtain ⟨hrx, hs⟩ | ⟨hrx, hs⟩ := hwhere
  · simp only [hrx, if_true]
    split
    · exact rxAbort_deeds [] hs hrx (fun e he => absurd he List.not_mem_nil)
        (Minor.of_eq rfl rfl (List.append_nil _).symm) rfl (List.append_nil _).symm
    · exact rxData_deeds pt hs hrx
  · simp only [hrx, Bool.false_eq_true, if_false]
    split
    · rename_i hmeta
      exact rxMetadata_deeds pt hs hrx hmeta.1 hmeta.2 hrec
    · exact Deeds.refl _

theorem fileTransferHandleRx_deeds
    (payload : Bytes) (hok : (life v).Ok) (hst : v.ps.state.InSession) :
    Deeds P E cmd i v (fileTransferHandleRx P E i payload v).2 := by
  unfold fileTransferHandleRx
  split
  · exact Deeds.of_minor (Minor.say _ _ _ v)
  unfold sodiumMalloc
  cases E.malloc v.sh.tick with
  | false =>
      exact Deeds.of_minor ((Minor.tickOn v).trans (Minor.say _ _ _ _))
  | true =>
      dsimp only
      have hrem := noiseDecrypt_remote (P := P) v.tickOn.ps.session (.data payload) true
      generalize noiseDecrypt P v.tickOn.ps.session (.data payload) true = r at hrem ⊢
      obtain ⟨opened, session⟩ := r
      dsimp only at hrem ⊢
      generalize hu : (v.tickOn.setPs fun ps => { ps with session := session }) = u
      have hmu : Minor v u := by
        rw [← hu]
        exact (Minor.tickOn v).trans (minor_session v.tickOn hrem)
      have hlife : life u = life v := by
        rw [← hu, life_session hrem, life_tickOn]
      have hust : u.ps.state = v.ps.state ∧ u.ps.rxFile = v.ps.rxFile := by
        rw [← hu]
        exact ⟨rfl, rfl⟩
      have hfailed : Deeds P E cmd i v
          (if u.ps.rxFile.active then (true, rxAbort P E i (u.uiPrintError rxDecryptError []))
            else (true, u.uiPrintError rxDecryptError [])).2 := by
        split
        · rename_i hrx
          rw [hust.2] at hrx
          exact (Deeds.of_minor (hmu.trans (Minor.say _ _ _ u))).trans
            (rxAbort_deeds (v := u.say .error rxDecryptError []) []
              (hust.1.trans (fileRx_of_active hok hrx)) (by rw [View.say_ps, hust.2]; exact hrx)
              (fun e he => absurd he List.not_mem_nil)
              (Minor.of_eq rfl rfl (List.append_nil _).symm) rfl (List.append_nil _).symm)
        · exact Deeds.of_minor (hmu.trans (Minor.say _ _ _ _))
      cases opened with
      | none =>
          exact hfailed
      | some pt =>
          cases pt with
          | nil =>
              exact hfailed
          | cons b pt =>
              dsimp only
              refine (Deeds.of_minor (hmu.trans (Minor.emit u rfl))).trans
                (rxRecord_deeds _ ?_ ?_ ?_)
              · rw [life_emit (by simp [Effect.isMark]), hlife]
                exact hok
              · rw [View.emit_ps, hust.1]
                exact hst
              · exact ⟨u.sh.log, rfl⟩

end FileRx

end App
end Noxtor
