import Noxtor.App.SlotMoves

/-!
# The frame loop makes moves

Receiving a file, the handshake with its claim and its prompts, and the loop of
`process_peer_frames`, as moves of the life of a slot.
-/

namespace Noxtor
namespace App

open ByteString Noise

section Dispatch

variable {P : Primitives} {E : Env} {i : Slot} {v : View}

/-- The three events that end a handshake tear it down. -/
theorem smDispatch_handshake_torn
    {ev : PeerEvent} (hst : v.ps.state.Handshaking)
    (hev : ev = .handshakeError ∨ ev = .handshakeTimeout ∨ ev = .arenaFail) :
    smDispatch P E i ev v = (.ok (), tornDown i v) := by
  rcases hev with rfl | rfl | rfl <;> rcases hst with hst | hst <;>
    exact smDispatch_torn (by rw [hst]; rfl) rfl

theorem smDispatch_seqMismatch
    (hst : v.ps.state.InSession) :
    smDispatch P E i .seqMismatch v = (.ok (), tornDown i v) := by
  rcases hst with hst | hst <;> exact smDispatch_torn (by rw [hst]; rfl) rfl

theorem smDispatch_sessionReady
    (hst : v.ps.state.Handshaking) :
    smDispatch P E i .sessionReady v =
      (.ok (), v.setPs fun ps => { ps with state := .active }) := by
  rcases hst with hst | hst
  · exact smDispatch_move (t := ⟨.handshakeInit, .sessionReady, .active, .sessionUp⟩)
      (by rw [hst]; rfl) (by simp)
  · exact smDispatch_move (t := ⟨.handshakeResp, .sessionReady, .active, .sessionUp⟩)
      (by rw [hst]; rfl) (by simp)

theorem smDispatch_handshakeDone
    (hst : v.ps.state.Handshaking) :
    smDispatch P E i .handshakeDone v =
      (.ok (), (actionTofuPrompt i v).setPs fun ps => { ps with state := .tofuPending }) := by
  rcases hst with hst | hst
  · exact smDispatch_prompt (t := ⟨.handshakeInit, .handshakeDone, .tofuPending, .tofuPrompt⟩)
      (by rw [hst]; rfl) rfl
  · exact smDispatch_prompt (t := ⟨.handshakeResp, .handshakeDone, .tofuPending, .tofuPrompt⟩)
      (by rw [hst]; rfl) rfl

theorem smDispatch_fileRxStart
    (hst : v.ps.state = .active) :
    smDispatch P E i .fileRxStart v =
      (.ok (), v.setPs fun ps => { ps with state := .fileRx }) :=
  smDispatch_move (t := ⟨.active, .fileRxStart, .fileRx, .fileBeginRx⟩)
    (by rw [hst]; rfl) (by simp)

theorem smDispatch_fileDone
    (hst : v.ps.state = .fileRx) :
    smDispatch P E i .fileDone v =
      (.ok (), v.setPs fun ps => { ps with state := .active }) :=
  smDispatch_move (t := ⟨.fileRx, .fileDone, .active, .fileEnd⟩)
    (by rw [hst]; rfl) (by simp)

end Dispatch

section FileRx

variable {P : Primitives} {E : Env} {i : Slot} {v : View}

/-- The same life after a transfer has begun or ended. -/
def Life.setRx (a : Life) (b : Bool) : Life :=
  { a with slot := { a.slot with
      state := if b then .fileRx else .active, rxActive := b } }

theorem life_rxFinish
    (hst : v.ps.state = .fileRx) :
    life (rxFinish P E i v) = (life v).setRx false := by
  unfold rxFinish
  rw [smDispatch_fileDone (v := v.setPs fun ps => { ps with rxFile := { fd := -1 } }) hst]
  simp [life, slotLife, Life.setRx, hst]

theorem life_rxAbort
    (hst : v.ps.state = .fileRx) :
    life (rxAbort P E i v) = (life v).setRx false := by
  unfold rxAbort
  dsimp only
  rw [life_rxFinish (by simpa using hst), life_uiPrintError, life_emit]
  split <;> simp [Effect.isMark]

/-- The end of a transfer is a move. -/
theorem rxDone_moves
    {v' : View} (hst : v.ps.state = .fileRx) (h : life v' = (life v).setRx false) :
    Moves i (life v) (life v') := by
  rw [h]
  exact Moves.one (.rxDone hst)

theorem life_openatExcl
    (name : Bytes) (v : View) :
    life (openatExcl E i name v).2 = life v := by
  unfold openatExcl
  cases E.openat v.sh.tick with
  | fd fd =>
      exact life_emit (by simp [Effect.isMark]) v.tickOn
  | eexist =>
      rfl
  | err =>
      rfl

theorem life_openRecvFile
    (safeName : Bytes) (v : View) :
    life (openRecvFile E i safeName v).2 = life v := by
  unfold openRecvFile
  split
  · rfl
  split
  · rfl
  split
  · rfl
  dsimp only
  split
  · rfl
  have h1 := life_openatExcl (E := E) (i := i) (receivedTag ++ safeName) v.tickOn
  generalize openatExcl E i (receivedTag ++ safeName) v.tickOn = r at h1 ⊢
  obtain ⟨r, v1⟩ := r
  cases r with
  | fd fd =>
      exact (life_setPs rfl).trans h1
  | err =>
      exact h1
  | eexist =>
      dsimp only
      generalize receivedTag ++ safeName ++ [0x2e] ++ hex8 (E.random v1.sh.tick) = second
      split
      · exact h1
      have h2 := life_openatExcl (E := E) (i := i) second v1.tickOn
      generalize openatExcl E i second v1.tickOn = r at h2 ⊢
      obtain ⟨r, v2⟩ := r
      have h : life v2 = life v := h2.trans h1
      cases r with
      | fd fd =>
          exact (life_setPs rfl).trans h
      | eexist =>
          exact h
      | err =>
          exact h

/-- A transfer that is begun is active, or is aborted at once. -/
theorem rxBegin_moves
    (fileFd : Nat) (safeName : Bytes) (size : Nat) (hash : Block 32)
    (hst : v.ps.state = .active) :
    Moves i (life v) (life (rxBegin P E i fileFd safeName size hash v)) := by
  unfold rxBegin
  dsimp only
  generalize hv1 : (v.tickOn.setPs fun ps => { ps with rxFile := { ps.rxFile with
    active := true
    fd := fileFd
    expectedSize := size
    receivedBytes := 0
    lastChunkTs := E.clock v.sh.tick
    expectedHash := hash
    filename := strCopy 255 safeName } }) = v1
  have hst1 : v1.ps.state = .active := by
    rw [← hv1]
    exact hst
  rw [smDispatch_fileRxStart hst1]
  dsimp only
  generalize hv2 : (v1.setPs fun ps => { ps with state := .fileRx }) = v2
  have hst2 : v2.ps.state = .fileRx := by
    rw [← hv2]
    rfl
  have hmove : Moves i (life v) (life v2) := by
    have h : life v2 = (life v).setRx true := by
      rw [← hv2, ← hv1, ← life_tickOn v]
      simp [life, slotLife, Life.setRx, hst]
    rw [h]
    exact Moves.one (.rxStart hst)
  have hps : ∀ message u, (hashCall E message u).2.ps = u.ps := by
    intro message u
    unfold hashCall
    split <;> rfl
  have h3 := life_hashCall (E := E) "Hash state başlatılamadı" v2
  have hps3 := hps "Hash state başlatılamadı" v2
  generalize hashCall E "Hash state başlatılamadı" v2 = r at h3 hps3 ⊢
  obtain ⟨_ | _, v3⟩ := r
  · have hst3 : v3.ps.state = .fileRx := by
      rw [show v3.ps = v2.ps from hps3, hst2]
    refine hmove.trans ?_
    rw [← h3]
    exact rxDone_moves hst3 (life_rxAbort hst3)
  have hst3 : v3.ps.state = .fileRx := by
    rw [show v3.ps = v2.ps from hps3, hst2]
  have h4 := life_hashCall (E := E) "Hash güncellenemedi" v3
  have hps4 := hps "Hash güncellenemedi" v3
  dsimp only
  generalize hashCall E "Hash güncellenemedi" v3 = r at h4 hps4 ⊢
  obtain ⟨_ | _, v4⟩ := r
  · have hst4 : v4.ps.state = .fileRx := by
      rw [show v4.ps = v3.ps from hps4, hst3]
    refine hmove.trans ?_
    rw [← h3, ← h4]
    exact rxDone_moves hst4 (life_rxAbort hst4)
  · refine hmove.trans (Moves.of_eq ?_)
    rw [life_uiPrintSystem, life_setPs rfl, h4, h3]

theorem rxMetadata_moves
    (pt : Bytes) (hst : v.ps.state = .active) (hrx : v.ps.rxFile.active = false) :
    Moves i (life v) (life (rxMetadata P E i pt v)) := by
  have hquiet : ∀ message args, life (v.tickOn.tickOn.uiPrintError message args) = life v :=
    fun message args => life_uiPrintError message args v.tickOn.tickOn
  unfold rxMetadata
  dsimp only
  split
  · exact Moves.of_eq (life_uiPrintError _ _ v.tickOn)
  cases E.statvfs v.tickOn.sh.tick with
  | none =>
      exact Moves.of_eq (hquiet _ _)
  | some vfs =>
      obtain ⟨bavail, frsize⟩ := vfs
      dsimp only
      split
      · exact Moves.of_eq (hquiet _ _)
      split
      · exact Moves.of_eq (hquiet _ _)
      generalize sanitizeFilename (E.random v.sh.tick) 256 (cstr ((pt.drop 9).take 255)) = name
      have h0 : life (v.tickOn.tickOn.setPs fun ps => { ps with rxFile := {} }) = life v := by
        apply life_setPs (v := v.tickOn.tickOn)
        simp only [slotLife, View.tickOn_ps, hrx]
        rfl
      have hst0 : (v.tickOn.tickOn.setPs fun ps => { ps with rxFile := {} }).ps.state = .active :=
        hst
      generalize (v.tickOn.tickOn.setPs fun ps => { ps with rxFile := {} }) = v2 at h0 hst0 ⊢
      have h1 := life_openRecvFile (E := E) (i := i) name v2
      generalize openRecvFile E i name v2 = r at h1 ⊢
      obtain ⟨_ | fileFd, v3⟩ := r
      · exact Moves.of_eq ((life_uiPrintError _ _ v3).trans (h1.trans h0))
      · have hst3 : v3.ps.state = .active := by
          have h := congrArg (fun a => a.slot.state) h1
          exact h.trans hst0
        rw [← h0, ← h1]
        exact rxBegin_moves fileFd name _ _ hst3

theorem rxComplete_moves
    (hst : v.ps.state = .fileRx) :
    Moves i (life v) (life (rxComplete P E i v)) := by
  have hun : ∀ e ∈ [Effect.fileUnlink i v.ps.rxFile.localName], e.isMark = false := by
    simp [Effect.isMark]
  have hdone : ∀ e ∈ [Effect.fileDone i v.ps.rxFile.localName], e.isMark = false := by
    simp [Effect.isMark]
  unfold rxComplete
  dsimp only
  split
  · apply rxDone_moves hst
    rw [life_rxFinish (by simpa using hst), life_emit hun, life_tickOn]
  split
  · apply rxDone_moves hst
    rw [life_rxFinish (by simpa using hst), life_uiPrintSystem, life_emit hdone, life_tickOn]
  · apply rxDone_moves hst
    rw [life_rxFinish (by simpa using hst), life_uiPrintError, life_emit hun, life_tickOn]

theorem rxData_moves
    (pt : Bytes) (hst : v.ps.state = .fileRx) :
    Moves i (life v) (life (rxData P E i pt v)) := by
  unfold rxData
  dsimp only
  split
  · exact rxDone_moves hst (life_rxAbort hst)
  split
  · exact rxDone_moves hst (life_rxAbort hst)
  generalize pt.take (v.ps.rxFile.expectedSize - v.ps.rxFile.receivedBytes) = data
  generalize writeToFile (E.fileWrites v.sh.tick) data = written
  generalize hv1 : v.tickOn.emit [.fileWrite i v.ps.rxFile.localName written.2] = v1
  have h1 : life v1 = life v := by
    rw [← hv1]
    exact life_emit (by simp [Effect.isMark]) v.tickOn
  have hst1 : v1.ps.state = .fileRx := by
    rw [← hv1]
    exact hst
  rw [← h1]
  split
  · exact rxDone_moves hst1 (life_rxAbort hst1)
  split
  · exact rxDone_moves hst1 (life_rxAbort (v := v1.tickOn) hst1)
  generalize hv3 : (v1.tickOn.tickOn.setPs fun ps => { ps with rxFile := { ps.rxFile with
    hashState := ps.rxFile.hashState ++ data
    receivedBytes := ps.rxFile.receivedBytes + data.length
    lastChunkTs := E.clock v1.tickOn.sh.tick } }) = v3
  have h3 : life v3 = life v1 := by
    rw [← hv3]
    exact life_setPs rfl
  have hst3 : v3.ps.state = .fileRx := by
    rw [← hv3]
    exact hst1
  rw [← h3]
  split
  · split
    · exact rxDone_moves hst3 (life_rxAbort hst3)
    · exact rxComplete_moves hst3
  · exact Moves.refl _

theorem rxRecord_moves
    (pt : Bytes) (hok : (life v).Ok) (hst : v.ps.state.InSession) :
    Moves i (life v) (life (rxRecord P E i pt v)) := by
  have hslot := hok.1
  unfold SlotLife.Ok at hslot
  unfold rxRecord
  rcases hst with hst | hst
  · simp only [life, slotLife, hst] at hslot
    have hrx : v.ps.rxFile.active = false := hslot.2.2.2
    rw [hrx]
    split
    · exact rxMetadata_moves pt hst hrx
    · exact Moves.refl _
  · simp only [life, slotLife, hst] at hslot
    have hrx : v.ps.rxFile.active = true := hslot.2.2.2
    rw [hrx]
    split
    · exact rxDone_moves hst (life_rxAbort hst)
    · exact rxData_moves pt hst

theorem fileTransferHandleRx_moves
    (payload : Bytes) (hok : (life v).Ok) (hst : v.ps.state.InSession) :
    Moves i (life v) (life (fileTransferHandleRx P E i payload v).2) := by
  unfold fileTransferHandleRx
  split
  · exact Moves.refl _
  unfold sodiumMalloc
  generalize E.malloc v.sh.tick = ok
  cases ok with
  | false =>
      exact Moves.refl _
  | true =>
      dsimp only
      have hrem := noiseDecrypt_remote (P := P) v.tickOn.ps.session (.data payload) true
      generalize noiseDecrypt P v.tickOn.ps.session (.data payload) true = opened at hrem ⊢
      have h2 : life (v.tickOn.setPs fun ps => { ps with session := opened.2 }) = life v :=
        life_session (v := v.tickOn) hrem
      have hst2 : (v.tickOn.setPs fun ps => { ps with session := opened.2 }).ps.state.InSession :=
        hst
      generalize (v.tickOn.setPs fun ps => { ps with session := opened.2 }) = v2 at h2 hst2 ⊢
      rw [← h2] at hok ⊢
      have hfail : Moves i (life v2) (life (if v2.ps.rxFile.active = true then
          (true, rxAbort P E i (v2.uiPrintError rxDecryptError []))
          else (true, v2.uiPrintError rxDecryptError [])).2) := by
        split
        · rename_i hact
          have hslot := hok.1
          unfold SlotLife.Ok at hslot
          have hrx : v2.ps.state = .fileRx := by
            rcases hst2 with h | h
            · simp [life, slotLife, h, hact] at hslot
            · exact h
          exact rxDone_moves hrx (life_rxAbort (v := v2.uiPrintError rxDecryptError []) hrx)
        · exact Moves.refl _
      obtain ⟨pt, session⟩ := opened
      cases pt with
      | none =>
          exact hfail
      | some pt =>
          cases pt with
          | nil =>
              exact hfail
          | cons b pt =>
              have h3 : life (v2.emit [.fileRecord i (b :: pt)]) = life v2 :=
                life_emit (by simp [Effect.isMark]) v2
              dsimp only
              rw [← h3] at hok ⊢
              exact rxRecord_moves (b :: pt) hok hst2

end FileRx

section Handshake

variable {P : Primitives} {E : Env} {i : Slot} {v : View}

/-- The same life with another handshake. -/
def Life.setHs (a : Life) (x : Option (Nat × Key)) : Life :=
  { a with slot := { a.slot with hs := x } }

/-- The session with key `k` is up. -/
def Life.up (a : Life) (k : Key) : Life :=
  { a with slot := { a.slot with state := .active, hs := none, session := some k } }

/-- How a handshake can end: torn down, in a session, or waiting for the user. -/
def Concluded (i : Slot) (a b : Life) : Prop :=
  b = a.tornDown i ∨ (∃ k, b = a.up k) ∨ ∃ k, b = a.prompted i k

/-- The end of a handshake is a move, whatever the handshake looked like at the end. -/
theorem Concluded.moves
    {a b : Life} {x : Option (Nat × Key)} (hst : a.slot.state.Handshaking)
    (h : Concluded i (a.setHs x) b) :
    Moves i a b := by
  have hne : a.slot.state ≠ .idle := by
    rcases hst with hst | hst <;> rw [hst] <;> decide
  rcases h with rfl | ⟨k, rfl⟩ | ⟨k, rfl⟩
  · exact Moves.one (.torn hne)
  · exact Moves.one (.up k hst)
  · exact Moves.one (.prompt k hst)

theorem PeerState.Handshaking.ne_idle
    {st : PeerState} (h : st.Handshaking) :
    st ≠ .idle := by
  rcases h with h | h <;> rw [h] <;> decide

theorem life_rejectHandshake
    (message : String) (hst : v.ps.state.Handshaking) :
    life (rejectHandshake P E i message v) = (life v).tornDown i := by
  unfold rejectHandshake
  rw [smDispatch_handshake_torn (v := v.uiPrintError message []) hst (Or.inl rfl), life_tornDown,
    life_uiPrintError]

/-- A torn down slot does not remember its handshake or its session. -/
theorem tornDown_forgets
    (hs : Option NoiseHandshake) (session : Option NoiseSession) :
    (life (v.setPs fun ps => { ps with hs := hs, session := session })).tornDown i =
      (life v).tornDown i := by
  rfl

theorem life_sessionUp
    (onion name : Bytes) (session : NoiseSession) (hst : v.ps.state.Handshaking) :
    life (sessionUp P E i onion name session v) = (life v).up session.remoteStatic := by
  have hne := hst.ne_idle
  have hmark : marks [.knownSession i (strCopy noxOnionLen onion) session.remoteStatic] = [] := rfl
  unfold sessionUp
  dsimp only
  rw [smDispatch_sessionReady (by exact hst), ← life_tickOn v]
  simp [life, slotLife, Life.up, hne, View.uiPrintSystem, View.say, hmark]

/-- Slot `i` has moved to `ST_TOFU_PENDING` with the key it already had. -/
def Life.waiting (i : Slot) (a : Life) : Life :=
  { slot := { a.slot with state := .tofuPending, epoch := a.epoch + 1 }
    epoch := a.epoch + 1
    promptEpoch := if a.promptEpoch = 0 then a.epoch + 1 else a.promptEpoch
    promptFp := if a.promptEpoch = 0 then a.slot.key else a.promptFp
    marks := a.marks ++ ([.tofuPrompt i (a.epoch + 1) a.slot.key] ++
      if a.promptEpoch = 0 then [.arm .prompt (a.epoch + 1) a.slot.key] else [])
    fault := a.fault }

theorem life_tofuWait
    (hst : v.ps.state.Handshaking) :
    life (tofuWait P E i v) = (life v).waiting i := by
  have hne := hst.ne_idle
  unfold tofuWait
  rw [smDispatch_handshakeDone (by exact hst), ← life_tickOn v]
  by_cases h0 : v.tickOn.sh.tofuPromptEpoch = 0
  · simp [life, slotLife, actionTofuPrompt, Life.waiting, hne, h0]
    rfl
  · simp [life, slotLife, actionTofuPrompt, Life.waiting, hne, h0]
    rfl

theorem life_tofuFill
    (fd : Int) (onion name : Bytes) (key : Key) (zeroKey : Bool) (hne : v.ps.state ≠ .idle) :
    life (tofuFill fd onion name key zeroKey v) =
      { life v with slot := { (life v).slot with key := key } } := by
  simp [life, slotLife, tofuFill, hne]

theorem life_showFp
    (h : Bytes) (v : View) :
    life (v.emit [.showFp i h]) =
      { life v with marks := (life v).marks ++ [.showFp i h] } := by
  have hm : marks (v.sh.log ++ [.showFp i h]) = marks v.sh.log ++ [.showFp i h] := by
    rw [marks_append]
    rfl
  simp [life, View.emit, hm]

/-- Filling in the key, showing it and waiting is a prompt. -/
theorem waiting_prompted
    {a : Life} {k : Key} (hhs : a.slot.hs = some (3, k)) :
    Life.waiting i { a with
      slot := { a.slot with key := k }, marks := a.marks ++ [.showFp i (hex k.toList)] } =
      a.prompted i k := by
  simp [Life.waiting, Life.prompted, promptMarks, hhs]

theorem life_changedKey
    {hs : NoiseHandshake} (fd : Int) (onion name : Bytes)
    (hst : v.ps.state.Handshaking) (hhs : v.ps.hs = some hs) (h3 : hs.msgIndex = 3) :
    life (changedKey P E i fd onion name hs.rs v) = (life v).prompted i hs.rs := by
  have hslot : (life v).slot.hs = some (3, hs.rs) := by
    simp [life, slotLife, hhs, h3]
  have hquiet : life (v.emit [.keyChanged i onion]) = life v :=
    life_emit (by simp [Effect.isMark]) v
  rw [← hquiet] at hslot ⊢
  have hstu : (v.emit [.keyChanged i onion]).ps.state.Handshaking := hst
  unfold changedKey
  dsimp only
  generalize v.emit [.keyChanged i onion] = u at hslot hstu ⊢
  rw [life_tofuWait (by exact hstu)]
  simp only [life_uiPrintError, life_showFp, life_tofuFill _ _ _ _ _ hstu.ne_idle]
  exact waiting_prompted hslot

theorem life_newPeer
    {hs : NoiseHandshake} (fd : Int) (onion name : Bytes) (placeholder : Bool)
    (hst : v.ps.state.Handshaking) (hhs : v.ps.hs = some hs) (h3 : hs.msgIndex = 3) :
    life (newPeer P E i fd onion name placeholder hs.rs v) = (life v).prompted i hs.rs := by
  have hslot : (life v).slot.hs = some (3, hs.rs) := by
    simp [life, slotLife, hhs, h3]
  have hquiet : life (v.emit [.newPeer i onion]) = life v :=
    life_emit (by simp [Effect.isMark]) v
  rw [← hquiet] at hslot ⊢
  have hstu : (v.emit [.newPeer i onion]).ps.state.Handshaking := hst
  unfold newPeer
  dsimp only
  generalize v.emit [.newPeer i onion] = u at hslot hstu ⊢
  cases placeholder with
  | false =>
      rw [life_tofuWait (by exact hstu)]
      simp only [Bool.false_eq_true, if_false, life_uiPrintSystem, life_showFp,
        life_tofuFill _ _ _ _ _ hstu.ne_idle]
      exact waiting_prompted hslot
  | true =>
      rw [life_tofuWait (by exact hstu)]
      simp only [if_true, life_uiPrintError, life_uiPrintSystem, life_showFp,
        life_tofuFill _ _ _ _ _ hstu.ne_idle]
      exact waiting_prompted hslot

theorem knownPeer_concluded
    {hs : NoiseHandshake} (onion name : Bytes) (hst : v.ps.state.Handshaking) :
    Concluded i (life v) (life (knownPeer P E i hs onion name v)) := by
  unfold knownPeer sodiumMalloc
  generalize E.malloc v.sh.tick = ok
  cases ok with
  | false =>
      left
      dsimp only
      rw [smDispatch_handshake_torn (v := v.tickOn.uiPrintError "Arena bellek hatası" []) hst
        (Or.inr (Or.inr rfl)), life_tornDown, life_uiPrintError, life_tickOn]
  | true =>
      dsimp only
      cases handshakeSplit P (E.hkdfAlloc v.tickOn.sh.tick) hs with
      | error err hs' =>
          left
          dsimp only
          rw [life_rejectHandshake _ (by exact hst), tornDown_forgets]
          rfl
      | ok session hs' =>
          right
          left
          exact ⟨session.remoteStatic, by rw [life_sessionUp _ _ _ (by exact hst)]; rfl⟩

/-- The lookup of a contact does not show in the life of a slot. -/
theorem contactLookup_quiet
    (onion : Bytes) (v : View) :
    life (contactLookup E onion v).2 = life v ∧ (contactLookup E onion v).2.ps = v.ps := by
  unfold contactLookup dbGetContact
  split
  · exact ⟨rfl, rfl⟩
  · dsimp only
    split
    · exact ⟨life_emit (by simp [Effect.isMark]) v, rfl⟩
    · exact ⟨life_emit (by simp [Effect.isMark]) v.tickOn, rfl⟩

theorem contactDecision_concluded
    {hs : NoiseHandshake} (fd : Int) (onion : Bytes)
    (hst : v.ps.state.Handshaking) (hhs : v.ps.hs = some hs) (h3 : hs.msgIndex = 3) :
    Concluded i (life v) (life (contactDecision P E i fd hs onion v)) := by
  have hlook := contactLookup_quiet (E := E) onion (v.emit [.claim i onion hs.rs])
  rw [life_emit (by simp [Effect.isMark]), View.emit_ps] at hlook
  unfold contactDecision
  generalize contactLookup E onion (v.emit [.claim i onion hs.rs]) = r at hlook ⊢
  obtain ⟨r, v1⟩ := r
  obtain ⟨h1, hps⟩ := hlook
  dsimp only at h1 hps
  rw [← h1]
  rw [← hps] at hst hhs
  cases r with
  | error err =>
      exact Or.inr (Or.inr ⟨hs.rs, life_newPeer fd onion [] false hst hhs h3⟩)
  | ok contact =>
      obtain ⟨name, stored⟩ := contact
      dsimp only
      split
      · exact Or.inr (Or.inr ⟨hs.rs, life_newPeer fd onion name true hst hhs h3⟩)
      split
      · exact knownPeer_concluded onion name hst
      · exact Or.inr (Or.inr ⟨hs.rs, life_changedKey fd onion name hst hhs h3⟩)

theorem completeHandshake_concluded
    {hs : NoiseHandshake} (fd : Int) (pl : Bytes)
    (hst : v.ps.state.Handshaking) (hhs : v.ps.hs = some hs) (h3 : hs.msgIndex = 3) :
    Concluded i (life v) (life (completeHandshake P E i fd pl hs v)) := by
  unfold completeHandshake
  split
  · exact Or.inl (life_rejectHandshake _ hst)
  split
  · left
    rw [smDispatch_handshake_torn hst (Or.inl rfl), life_tornDown]
  split
  · exact Or.inl (life_rejectHandshake _ hst)
  split
  · exact Or.inl (life_rejectHandshake _ hst)
  · exact contactDecision_concluded fd _ hst hhs h3

/-- The reply of a running handshake goes out, or the handshake is torn down. -/
theorem handshakeReply_cases
    {hs : NoiseHandshake} (hst : v.ps.state.Handshaking) (hhs : v.ps.hs = some hs) :
    ((handshakeReply P E i v).1 = false ∧
      life (handshakeReply P E i v).2 = (life v).tornDown i) ∨
    ((handshakeReply P E i v).1 = true ∧
      ∃ hs', (handshakeReply P E i v).2.ps.hs = some hs' ∧
        (handshakeReply P E i v).2.ps.state = v.ps.state ∧
        (hs.msgIndex ≤ 3 → hs'.msgIndex ≤ 3) ∧
        life (handshakeReply P E i v).2 = (life v).setHs (some (hs'.msgIndex, hs'.rs))) := by
  unfold handshakeReply
  rw [hhs]
  dsimp only
  split
  swap
  · right
    refine ⟨rfl, hs, hhs, rfl, fun h => h, ?_⟩
    simp [Life.setHs, life, slotLife, hhs]
  rename_i hidx
  cases hsBuildClaimPayload P v.sh with
  | error err =>
      exact Or.inl ⟨rfl, life_rejectHandshake _ hst⟩
  | ok claim =>
      dsimp only
      cases hw : handshakeWrite P (hsCallAt E v.sh.tick) (.data claim)
          (some noiseMaxHandshakeLen) hs with
      | error err hs' =>
          left
          refine ⟨rfl, ?_⟩
          dsimp only
          rw [life_rejectHandshake _ (by exact hst)]
          rfl
      | ok msg hs' =>
          have hindex := (handshakeWrite_index hw).2
          dsimp only
          generalize hv2 : ((hsTicks v).setPs fun ps => { ps with hs := some hs' }) = v2
          have hst2 : v2.ps.state = v.ps.state := by
            rw [← hv2]
            rfl
          have hhs2 : v2.ps.hs = some hs' := by
            rw [← hv2]
            rfl
          have h2 : life v2 = (life v).setHs (some (hs'.msgIndex, hs'.rs)) := by
            rw [← hv2]
            rfl
          have htorn : (life v2).tornDown i = (life v).tornDown i := by
            rw [h2]
            rfl
          have hps := sockWrite_ps E i (frameBytes noxMsgCtrl v2.ps.txSeq msg) v2
          have h3 := life_sockWrite E i (frameBytes noxMsgCtrl v2.ps.txSeq msg) v2
          generalize sockWrite E i (frameBytes noxMsgCtrl v2.ps.txSeq msg) v2 = w at h3 hps ⊢
          obtain ⟨r, v3⟩ := w
          dsimp only at h3 hps
          have hst3 : v3.ps.state.Handshaking := by
            rw [hps, hst2]
            exact hst
          have hfail : life (rejectHandshake P E i "Handshake yanıtı gönderilemedi" v3) =
              (life v).tornDown i := by
            rw [life_rejectHandshake _ hst3, h3, htorn]
          cases r with
          | ok n =>
              dsimp only
              split
              · exact Or.inl ⟨rfl, hfail⟩
              · right
                refine ⟨rfl, hs', ?_, ?_, fun _ => by omega, ?_⟩
                · show v3.ps.hs = some hs'
                  rw [hps, hhs2]
                · show v3.ps.state = v.ps.state
                  rw [hps, hst2]
                · rw [life_touchLastActive, life_setPs rfl, h3, h2]
          | eagain =>
              exact Or.inl ⟨rfl, hfail⟩
          | eintr =>
              exact Or.inl ⟨rfl, hfail⟩
          | err =>
              exact Or.inl ⟨rfl, hfail⟩

/-- A handshake is only running in the handshake states. -/
theorem handshaking_of_running
    {hs : NoiseHandshake} (hok : (life v).Ok) (hhs : v.ps.hs = some hs) (hidx : hs.msgIndex < 3) :
    v.ps.state.Handshaking := by
  have hslot := hok.1
  unfold SlotLife.Ok at hslot
  cases hst : v.ps.state <;> simp only [life, slotLife, hst, hhs, Option.map_some] at hslot
  case handshakeInit => exact Or.inl rfl
  case handshakeResp => exact Or.inr rfl
  case tofuPending =>
    obtain ⟨-, h, -⟩ := hslot
    rw [Option.some.injEq, Prod.mk.injEq] at h
    omega
  all_goals simp at hslot

theorem handshakeFrame_moves
    {hs : NoiseHandshake} (fd : Int) (payload : Bytes) (hok : (life v).Ok)
    (hhs : v.ps.hs = some hs) (hidx : hs.msgIndex < 3) :
    Moves i (life v) (life (handshakeFrame P E i fd payload hs v).view) := by
  have hst := handshaking_of_running hok hhs hidx
  have hne := hst.ne_idle
  unfold handshakeFrame
  dsimp only
  cases hr : handshakeRead P (hsCallAt E v.sh.tick) (.data payload)
      (some noxHsPayloadV1Len) hs with
  | error err hs' =>
      dsimp only [LoopStep.view]
      rw [life_rejectHandshake _ (by exact hst), life_emit (by simp [Effect.isMark])]
      exact Moves.one (.torn hne)
  | ok pl hs' =>
      have hindex := (handshakeRead_index hr).2
      dsimp only
      generalize hv1 : (((hsTicks v).setPs fun ps => { ps with hs := some hs' }).emit
        [.heard i (some (pl, hs'.rs))]) = v1
      have hst1 : v1.ps.state = v.ps.state := by
        rw [← hv1]
        rfl
      have hhs1 : v1.ps.hs = some hs' := by
        rw [← hv1]
        rfl
      have h1 : life v1 = (life v).setHs (some (hs'.msgIndex, hs'.rs)) := by
        rw [← hv1, life_emit (by simp [Effect.isMark])]
        rfl
      have hcases := handshakeReply_cases (P := P) (E := E) (i := i)
        (by rw [hst1]; exact hst) hhs1
      generalize handshakeReply P E i v1 = r at hcases ⊢
      obtain ⟨sent, v2⟩ := r
      rcases hcases with ⟨hsent, h2⟩ | ⟨hsent, hs2, hhs2, hst2, hle, h2⟩
      · dsimp only at hsent h2
        subst hsent
        dsimp only [LoopStep.view]
        rw [h2, h1]
        exact Moves.one (.torn hne)
      · dsimp only at hsent hhs2 hst2 hle h2
        subst hsent
        dsimp only [handshakeDone]
        rw [hhs2]
        dsimp only
        have hlife : life v2 = (life v).setHs (some (hs2.msgIndex, hs2.rs)) := by
          rw [h2, h1]
          rfl
        split
        · rename_i hge
          have h3 : hs2.msgIndex = 3 := by
            have := hle (by omega)
            omega
          have hconc := completeHandshake_concluded (P := P) (E := E) (i := i) (v := v2) fd pl
            (by rw [hst2, hst1]; exact hst) hhs2 h3
          rw [hlife] at hconc
          exact hconc.moves hst
        · rename_i hlt
          dsimp only [LoopStep.view]
          rw [hlife]
          exact Moves.one (.turn _ _ hst (by omega))

end Handshake

section Loop

variable {P : Primitives} {E : Env} {i : Slot} {v : View}

theorem flushOnFirst_moves
    (v : View) :
    Moves i (life v) (life (flushOnFirst P E i v)) := by
  have hflag : ∀ u : View, life (u.setPs fun ps => { ps with queueFlushed := true }) = life u :=
    fun u => life_setPs rfl
  unfold flushOnFirst
  split
  · split
    · dsimp only
      split
      · exact Moves.of_eq (hflag _)
      · exact Moves.of_eq (hflag _)
    · rw [← hflag v]
      exact dbProcessQueue_moves _ _
  · exact Moves.refl _

theorem textFrame_moves
    (payload : Bytes) (v : View) :
    Moves i (life v) (life (textFrame P E i payload v)) := by
  unfold textFrame sodiumMalloc
  generalize E.malloc v.sh.tick = ok
  cases ok with
  | false =>
      exact Moves.refl _
  | true =>
      dsimp only
      have hrem := noiseDecrypt_remote (P := P) v.tickOn.ps.session (.data payload) true
      generalize noiseDecrypt P v.tickOn.ps.session (.data payload) true = opened at hrem ⊢
      have h2 : life (v.tickOn.setPs fun ps => { ps with session := opened.2 }) = life v :=
        life_session (v := v.tickOn) hrem
      generalize (v.tickOn.setPs fun ps => { ps with session := opened.2 }) = v2 at h2 ⊢
      rw [← h2]
      obtain ⟨pt, session⟩ := opened
      cases pt with
      | none =>
          exact Moves.refl _
      | some pt =>
          cases pt with
          | nil =>
              exact Moves.refl _
          | cons b pt =>
              dsimp only
              split
              · have h3 : life (v2.emit [.incoming i (b :: pt)]) = life v2 :=
                  life_emit (by simp [Effect.isMark]) v2
                rw [← h3]
                exact (flushOnFirst_moves _).trans
                  (Moves.of_eq ((life_touchLastActive E _).trans (life_setPs rfl)))
              · exact Moves.refl _

theorem sessionFrame_moves
    (fh : FrameHeader) (payload : Bytes) (hok : (life v).Ok) (hses : v.ps.session ≠ none) :
    Moves i (life v) (life (sessionFrame P E i fh payload v).view) := by
  have hst : v.ps.state.InSession := hok.1.of_session (by simpa [life, slotLife] using hses)
  have hne : v.ps.state ≠ .idle := by
    rcases hst with h | h <;> rw [h] <;> decide
  unfold sessionFrame
  split
  · dsimp only [LoopStep.view]
    rw [smDispatch_seqMismatch (by exact hst), life_tornDown, life_uiPrintError]
    exact Moves.one (.torn hne)
  split
  · exact textFrame_moves payload v
  · have h := fileTransferHandleRx_moves (P := P) (E := E) (i := i) payload hok hst
    dsimp only [LoopStep.view]
    unfold fileFrame
    generalize fileTransferHandleRx P E i payload v = r at h ⊢
    obtain ⟨_ | _, v1⟩ := r
    · exact h
    · exact h.trans (Moves.of_eq ((life_touchLastActive E _).trans (life_setPs rfl)))

theorem handleFrame_moves
    (fd : Int) (fh : FrameHeader) (payload : Bytes) (hok : (life v).Ok) :
    Moves i (life v) (life (handleFrame P E i fd fh payload v).view) := by
  unfold handleFrame
  split
  · cases hhs : v.ps.hs with
    | none =>
        exact Moves.refl _
    | some hs =>
        dsimp only
        split
        · rename_i hidx
          exact handshakeFrame_moves fd payload hok hhs hidx
        · exact Moves.refl _
  split
  · rename_i hses
    exact sessionFrame_moves fh payload hok hses.2
  · exact Moves.refl _

/-- A coherent slot with something in its buffer is in use. -/
theorem ne_idle_of_recv
    (hok : (life v).Ok) (hrecv : v.ps.recv ≠ []) :
    v.ps.state ≠ .idle := by
  intro hst
  have hslot := hok.1
  simp only [SlotLife.Ok, life, slotLife, hst] at hslot
  have hblank : isBlank v.ps = true := by simpa using hslot.2.2.2.2.2
  simp only [isBlank, Bool.and_eq_true, decide_eq_true_eq] at hblank
  exact hrecv hblank.1.1.1.1

/-- One turn of the frame loop is made of moves. -/
theorem frameStep_moves
    (fd : Int) (hok : (life v).Ok) :
    Moves i (life v) (life (frameStep P E i fd v).view) := by
  unfold frameStep
  split
  · exact Moves.refl _
  rename_i hlen
  have hne : v.ps.state ≠ .idle := by
    apply ne_idle_of_recv hok
    intro h
    rw [h] at hlen
    exact hlen (by decide)
  have hrecv : ∀ (u : View) (b : Bytes), u.ps.state = v.ps.state →
      life (u.setPs fun ps => { ps with recv := b }) = life u := by
    intro u b hu
    apply life_setPs
    exact slotLife_recv (by rw [hu]; exact hne) b
  cases frameHeaderDecode v.ps.recv with
  | error err =>
      exact Moves.of_eq (hrecv v [] rfl)
  | ok fh =>
      dsimp only
      split
      · exact Moves.of_eq (hrecv v [] rfl)
      split
      · exact Moves.refl _
      split
      · exact Moves.refl _
      unfold sodiumMalloc
      generalize E.malloc v.sh.tick = ok
      cases ok with
      | false =>
          exact Moves.of_eq (hrecv v.tickOn [] rfl)
      | true =>
          dsimp only
          have h1 := hrecv v.tickOn
            (v.ps.recv.drop (frameHeaderWireSize + fh.len.toNat)) rfl
          rw [life_tickOn] at h1
          rw [← h1] at hok ⊢
          exact handleFrame_moves fd fh _ hok

/-- The frame loop is made of moves. -/
theorem frameLoop_moves
    (fd : Int) (fuel : Nat) (hok : (life v).Ok) :
    Moves i (life v) (life (frameLoop P E i fd fuel v)) := by
  induction fuel generalizing v with
  | zero =>
      exact Moves.refl _
  | succ fuel ih =>
      have h := frameStep_moves (P := P) (E := E) (i := i) fd hok
      unfold frameLoop
      cases hstep : frameStep P E i fd v with
      | stop v1 =>
          rw [hstep] at h
          exact h
      | next v1 =>
          rw [hstep] at h
          exact h.trans (ih (h.ok hok))

theorem processPeerFrames_moves
    (fd : Int) (hok : (life v).Ok) :
    Moves i (life v) (life (processPeerFrames P E i fd v)) :=
  frameLoop_moves fd _ hok

end Loop

end App
end Noxtor
