import Noxtor.App.Chunking
import Noxtor.App.EventMoves

/-!
# What a run does to the receiving side of a slot

Once the handshake of a slot is over, three parts of the event loop work on its receiving side:
the `EPOLLIN` branch, the drain and the yes of the user.  Everything else, from the other slots
to a file that is sent, leaves it alone or tears the slot down.

`slotTrace` lists these parts for a run of the whole application, each with the view in which it
was taken, and `appStep_slotEffect` says that a step of the application does to the slot what its
part does.
-/

namespace Noxtor
namespace App

open ByteString Noise

/-- The receiving side of a slot, without what it has handed on. -/
def PeerSession.rxSide (ps : PeerSession) : RxView :=
  { state := ps.state, fd := ps.fd, rx := ps.session.map NoiseSession.rx, hs := ps.hs
    rxSeq := ps.rxSeq, recv := ps.recv, delivered := [] }

/-- The receiving side is left alone; a session may move between its states. -/
def Quiet (a b : PeerSession) : Prop :=
  ∃ st, b.rxSide = { a.rxSide with state := st } ∧
    (st = a.state ∨ a.state.InSession ∧ st.InSession)

/-- The handshake is over, and the slot is in use. -/
def PeerState.Past (st : PeerState) : Prop :=
  st = .tofuPending ∨ st.InSession

section Quiet

variable {i : Slot} {v w : View} {a b c : PeerSession}

theorem Quiet.refl (a : PeerSession) : Quiet a a :=
  ⟨a.state, rfl, Or.inl rfl⟩

theorem Quiet.trans
    (h : Quiet a b) (h' : Quiet b c) :
    Quiet a c := by
  obtain ⟨st, hb, hst⟩ := h
  obtain ⟨st', hc, hst'⟩ := h'
  have hbst : b.state = st := congrArg RxView.state hb
  refine ⟨st', by rw [hc, hb], ?_⟩
  rw [hbst] at hst'
  rcases hst' with rfl | ⟨h1, h2⟩
  · exact hst
  · rcases hst with rfl | ⟨h3, -⟩
    · exact Or.inr ⟨h1, h2⟩
    · exact Or.inr ⟨h3, h2⟩

theorem rxSide_eq
    (i : Slot) (v : View) :
    v.ps.rxSide = { rxView i v with delivered := [] } :=
  rfl

theorem quiet_of_rxView
    (h : rxView i w = rxView i v) :
    Quiet v.ps w.ps :=
  ⟨v.ps.state, by rw [rxSide_eq i w, h]; rfl, Or.inl rfl⟩

theorem quiet_of_stateMoved
    (h : StateMoved (rxView i v) (rxView i w)) (hst : v.ps.state.InSession) :
    Quiet v.ps w.ps := by
  obtain ⟨st, hw, hin⟩ := h
  exact ⟨st, by rw [rxSide_eq i w, hw]; rfl, Or.inr ⟨hst, hin hst⟩⟩

/-- The receiving side is left alone, or the slot is torn down. -/
def QuietOrGone (a b : PeerSession) : Prop :=
  Quiet a b ∨ b.state = .idle

theorem quietOrGone_of_keptOrTorn
    (h : KeptOrTorn (rxView i v) (rxView i w)) :
    QuietOrGone v.ps w.ps := by
  rcases h with h | h
  · exact Or.inl (quiet_of_rxView h)
  · exact Or.inr (congrArg RxView.state h)

theorem Quiet.past
    (h : Quiet a b) (ha : a.state.Past) :
    b.state.Past := by
  obtain ⟨st, hb, hst⟩ := h
  have hbst : b.state = st := congrArg RxView.state hb
  rw [hbst]
  rcases hst with rfl | ⟨-, hst⟩
  · exact ha
  · exact Or.inr hst

end Quiet

section Sending

variable {P : Primitives} {E : Env} {i : Slot}

theorem segmentLoop_rx
    (msg : Bytes) (fuel offset : Nat) (v : View) :
    KeptOrTorn (rxView i v) (rxView i (segmentLoop P E i msg fuel offset v).2) := by
  induction fuel generalizing offset v with
  | zero =>
      exact Or.inl rfl
  | succ fuel ih =>
      unfold segmentLoop
      split
      · dsimp only
        have h := sendText_rx (P := P) (E := E) (i := i)
          ((msg.drop offset).take (noxNextChunkSize msg offset msg.length) ++ [0]) v
        generalize sendText P E i
          ((msg.drop offset).take (noxNextChunkSize msg offset msg.length) ++ [0]) v = r at h ⊢
        obtain ⟨_ | _, v1⟩ := r
        · exact h
        · exact h.trans (ih _ v1)
      · exact Or.inl rfl

theorem sendSegmentedMessageTo_rx
    (msg : Bytes) (v : View) :
    KeptOrTorn (rxView i v) (rxView i (sendSegmentedMessageTo P E i msg v).2) := by
  unfold sendSegmentedMessageTo
  split
  · exact Or.inl rfl
  · dsimp only
    split
    · exact Or.inl rfl
    · exact segmentLoop_rx msg _ _ v.tickOn.tickOn

/-- Encryption leaves the receiving half of the session alone. -/
theorem rxView_encrypted
    {session : Option NoiseSession} (v : View)
    (h : session.map NoiseSession.rx = v.ps.session.map NoiseSession.rx) :
    rxView i (v.setPs fun ps => { ps with session := session }) = rxView i v := by
  rw [rxView_session, h]
  rfl

theorem rxView_openSource
    (v : View) :
    rxView i (openSource E v).2 = rxView i v := by
  unfold openSource
  cases E.openFile v.sh.tick with
  | none =>
      rfl
  | some fileFd =>
      dsimp only
      cases E.fileStat v.tickOn.sh.tick with
      | none =>
          rfl
      | some st =>
          dsimp only
          split_ifs <;> simp

theorem rxView_hashLoop
    (reads : List ReadResult) (acc : Bytes) (v : View) :
    rxView i (hashLoop E reads acc v).2 = rxView i v := by
  induction reads generalizing acc v with
  | nil =>
      rfl
  | cons r reads ih =>
      cases r with
      | data b =>
          cases b with
          | nil =>
              rfl
          | cons c b =>
              unfold hashLoop
              have h := rxView_hashCall (E := E) (i := i) "Hash güncellenemedi" v
              generalize hashCall E "Hash güncellenemedi" v = q at h ⊢
              obtain ⟨_ | _, v1⟩ := q
              · exact h
              · exact (ih _ v1).trans h
      | eintr =>
          exact ih acc v
      | eagain =>
          rfl
      | err =>
          rfl

theorem rxView_hashSource
    (size : Nat) (v : View) :
    rxView i (hashSource P E size v).2 = rxView i v := by
  unfold hashSource
  have h1 := rxView_hashCall (E := E) (i := i) "Hash state başlatılamadı" v
  generalize hashCall E "Hash state başlatılamadı" v = q at h1 ⊢
  obtain ⟨_ | _, v1⟩ := q
  · exact h1
  dsimp only at h1 ⊢
  have h2 := rxView_hashCall (E := E) (i := i) "Hash güncellenemedi" v1
  generalize hashCall E "Hash güncellenemedi" v1 = q at h2 ⊢
  obtain ⟨_ | _, v2⟩ := q
  · exact h2.trans h1
  dsimp only at h2 ⊢
  have h3 := rxView_hashLoop (E := E) (i := i) (E.hashReads v2.sh.tick) (be64 size) v2.tickOn
  generalize hashLoop E (E.hashReads v2.sh.tick) (be64 size) v2.tickOn = q at h3 ⊢
  obtain ⟨_ | absorbed, v3⟩ := q
  · exact h3.trans (h2.trans h1)
  dsimp only at h3 ⊢
  have h4 := rxView_hashCall (E := E) (i := i) "Hash tamamlanamadı" v3
  generalize hashCall E "Hash tamamlanamadı" v3 = q at h4 ⊢
  have h : rxView i q.2 = rxView i v := h4.trans (h3.trans (h2.trans h1))
  obtain ⟨_ | _, v4⟩ := q
  · exact h
  · dsimp only
    split
    · exact h
    · exact h

theorem rxView_sendMetadata
    (name : Bytes) (v : View) :
    rxView i (sendMetadata P E i name v) = rxView i v := by
  unfold sendMetadata
  dsimp only
  have hrx := noiseEncrypt_rx (P := P) v.ps.session
    (.data (metadataBytes name v.ps.txFile.totalSize v.ps.txFile.hash)) true
  generalize noiseEncrypt P v.ps.session
    (.data (metadataBytes name v.ps.txFile.totalSize v.ps.txFile.hash)) true = enc at hrx ⊢
  obtain ⟨_ | ct, session⟩ := enc
  · exact rxView_encrypted v hrx
  have h1 := rxView_encrypted (i := i) v hrx
  dsimp only
  generalize (v.setPs fun ps => { ps with session := session }) = v1 at h1 ⊢
  have h2 := rxView_sockWrite (E := E) (i := i) (frameBytes noxMsgFile v1.ps.txSeq ct) v1
  generalize sockWrite E i (frameBytes noxMsgFile v1.ps.txSeq ct) v1 = q at h2 ⊢
  obtain ⟨r, v2⟩ := q
  rw [← h1, ← h2]
  cases r with
  | ok n =>
      dsimp only
      split <;> rfl
  | eagain =>
      rfl
  | eintr =>
      rfl
  | err =>
      rfl

theorem rxView_fileTransferStart
    (filepath : Bytes) (v : View) :
    rxView i (fileTransferStart P E i filepath v) = rxView i v := by
  unfold fileTransferStart
  split
  · rfl
  split
  · rfl
  split
  · rfl
  have h1 := rxView_openSource (E := E) (i := i) v
  generalize openSource E v = q at h1 ⊢
  obtain ⟨_ | ⟨fileFd, size⟩, v1⟩ := q
  · exact h1
  have h2 := rxView_hashSource (P := P) (E := E) (i := i) size v1
  dsimp only
  generalize hashSource P E size v1 = q at h2 ⊢
  obtain ⟨_ | hash, v2⟩ := q
  · exact h2.trans h1
  dsimp only [sodiumMalloc] at h2 ⊢
  rw [← h1, ← h2]
  generalize E.malloc _ = ok
  cases ok with
  | false =>
      rfl
  | true =>
      exact rxView_sendMetadata _ _

theorem rxView_txFrameDone
    (v : View) :
    rxView i (txFrameDone v) = rxView i v := by
  unfold txFrameDone
  dsimp only
  split <;> rfl

theorem rxView_txAdvance
    (n : Nat) (v : View) :
    rxView i (txAdvance E n v) = rxView i v := by
  unfold txAdvance
  dsimp only
  split
  · exact rxView_txFrameDone _
  · rfl

theorem rxView_txFlush
    (v : View) :
    rxView i (txFlush E i v) = rxView i v := by
  unfold txFlush
  have h := rxView_sockWrite (E := E) (i := i) v.ps.txFile.pending v
  generalize sockWrite E i v.ps.txFile.pending v = q at h ⊢
  obtain ⟨r, v1⟩ := q
  rw [← h]
  cases r with
  | ok n =>
      dsimp only
      split
      · rfl
      · exact rxView_txAdvance n v1
  | eagain =>
      rfl
  | eintr =>
      rfl
  | err =>
      rfl

theorem rxView_txBuffer
    (chunk : Bytes) (v : View) :
    rxView i (txBuffer P chunk v) = rxView i v := by
  unfold txBuffer
  dsimp only
  generalize hv1 : (v.setPs fun ps =>
    { ps with txFile := { ps.txFile with currentChunkSize := chunk.length } }) = v1
  have h1 : rxView i v1 = rxView i v := by
    rw [← hv1]
    rfl
  rw [← h1]
  split
  · rfl
  have hrx := noiseEncrypt_rx (P := P) v1.ps.session (.data chunk) true
  generalize noiseEncrypt P v1.ps.session (.data chunk) true = enc at hrx ⊢
  obtain ⟨_ | ct, session⟩ := enc
  · exact rxView_encrypted v1 hrx
  · dsimp only
    split
    · exact rxView_encrypted v1 hrx
    · exact rxView_encrypted v1 hrx

theorem rxView_fileTransferHandleTx
    (v : View) :
    rxView i (fileTransferHandleTx P E i v) = rxView i v := by
  unfold fileTransferHandleTx
  split
  · rfl
  split
  · exact rxView_txFlush v
  unfold txNext
  dsimp only
  split
  · rfl
  cases E.fileRead v.sh.tick with
  | data b =>
      dsimp only
      split
      · rfl
      · exact rxView_txBuffer _ v.tickOn
  | eintr =>
      rfl
  | eagain =>
      rfl
  | err =>
      rfl

theorem rxView_writeSlot
    (v : View) :
    rxView i (writeSlot P E i v) = rxView i v := by
  unfold writeSlot
  split
  · exact rxView_fileTransferHandleTx v
  · rfl

end Sending

section Sweeps

variable {P : Primitives} {E : Env} {i : Slot} {v : View}

theorem peerDisconnected_gone
    (v : View) :
    (smDispatch P E i .peerDisconnected v).2.ps.state = .idle := by
  rw [smDispatch_peerDisconnected]
  by_cases h : v.ps.state = .idle
  · rw [if_pos h]
    exact h
  · rw [if_neg h]
    rfl

/-- A slot that is past its handshake is left alone or torn down, and one that is torn down stays
so. -/
def After (a b : PeerSession) : Prop :=
  (a.state.Past → QuietOrGone a b) ∧ (a.state = .idle → b.state = .idle)

theorem After.trans
    {a b c : PeerSession} (h : After a b) (h' : After b c) :
    After a c := by
  constructor
  · intro hpast
    rcases h.1 hpast with hb | hb
    · rcases h'.1 (hb.past hpast) with hc | hc
      · exact Or.inl (hb.trans hc)
      · exact Or.inr hc
    · exact Or.inr (h'.2 hb)
  · exact fun hidle => h'.2 (h.2 hidle)

theorem After.gone
    {a b : PeerSession} (h : b.state = .idle) :
    After a b :=
  ⟨fun _ => Or.inr h, fun _ => h⟩

theorem after_of_rxView
    {w : View} (h : rxView i w = rxView i v) :
    After v.ps w.ps :=
  ⟨fun _ => Or.inl (quiet_of_rxView h), fun hidle => (congrArg RxView.state h).trans hidle⟩

theorem sweepHandshake_after
    (v : View) :
    After v.ps (sweepHandshake P E i v).ps := by
  unfold sweepHandshake
  split
  · rename_i hst
    split
    · rw [smDispatch_handshake_torn (v := v.tickOn.uiPrintError _ []) hst (Or.inr (Or.inl rfl))]
      exact After.gone rfl
    · exact after_of_rxView (i := i) rfl
  · exact after_of_rxView (i := i) rfl

theorem sweepTofu_after
    (v : View) :
    After v.ps (sweepTofu P E i v).ps := by
  unfold sweepTofu
  split
  · split
    · exact After.gone (peerDisconnected_gone _)
    · exact after_of_rxView (i := i) rfl
  · exact after_of_rxView (i := i) rfl

theorem sweepChunk_after
    (v : View) :
    After v.ps (sweepChunk P E i v).ps := by
  unfold sweepChunk
  split
  · split
    · dsimp only
      generalize hun : (if v.sh.downloadsDirFd ≥ 0 ∧ v.ps.rxFile.localName ≠ [] then
        [Effect.fileUnlink i v.ps.rxFile.localName] else []) = unlinked
      have hdel : delivered i unlinked = [] := by
        rw [← hun]
        split <;> rfl
      have h1 := rxView_emit hdel
        (v.tickOn.uiPrintError "Dosya transferi zaman aşımı — sender sessiz." [])
      generalize ((v.tickOn.uiPrintError "Dosya transferi zaman aşımı — sender sessiz." []).emit
        unlinked) = v1 at h1 ⊢
      have h2 : rxView i (v1.setPs fun ps => { ps with rxFile := { fd := -1 } }) = rxView i v := h1
      generalize (v1.setPs fun ps => { ps with rxFile := { fd := -1 } }) = v2 at h2 ⊢
      split
      · rename_i hst
        have hmove := smDispatch_file_rx (P := P) (E := E) (i := i) (Or.inl rfl) v2
        rw [h2] at hmove
        have hst' : v.ps.state = .fileRx := (congrArg RxView.state h2).symm.trans hst
        constructor
        · exact fun _ => Or.inl (quiet_of_stateMoved hmove (Or.inr hst'))
        · intro hidle
          rw [hst'] at hidle
          cases hidle
      · exact after_of_rxView h2
    · exact after_of_rxView (i := i) rfl
  · exact after_of_rxView (i := i) rfl

theorem sweepIdle_after
    (v : View) :
    After v.ps (sweepIdle P E i v).ps := by
  unfold sweepIdle
  split
  · dsimp only
    split
    · exact After.gone (peerDisconnected_gone _)
    · split
      · exact After.gone (peerDisconnected_gone _)
      · exact after_of_rxView (i := i) rfl
  · exact after_of_rxView (i := i) rfl

theorem sweepSlot_after
    (v : View) :
    After v.ps (sweepSlot P E i v).ps := by
  unfold sweepSlot
  split
  · exact after_of_rxView (i := i) rfl
  · exact (((sweepHandshake_after v).trans (sweepTofu_after _)).trans (sweepChunk_after _)).trans
      (sweepIdle_after _)

theorem torDiedSlot_after
    (v : View) :
    After v.ps (torDiedSlot P E i v).ps := by
  unfold torDiedSlot
  split
  · have htorn : smDispatch P E i .torDied v = (.ok (), tornDown i v) := by
      cases hst : v.ps.state <;> exact smDispatch_torn (by rw [hst]; rfl) rfl
    rw [htorn]
    exact After.gone rfl
  · exact after_of_rxView (i := i) rfl

end Sweeps

/-- A part of the event loop that works on the receiving side of a slot, with the view of the slot
before it. -/
inductive SlotPart where
  | read (sock : Nat) (u : View)
  | drain (u : View)
  | answer (u : View)

namespace SlotPart

/-- The view before the part. -/
def before : SlotPart → View
  | read _ u => u
  | drain u => u
  | answer u => u

/-- The view after it. -/
def result (P : Primitives) (E : Env) (i : Slot) : SlotPart → View
  | read sock u => readSlot P E i sock u
  | drain u => drainSlot P E i u
  | answer u => tofuAnswerYes P E i u

/-- Only a slot that waits for an answer gets one. -/
def Sound : SlotPart → Prop
  | answer u => u.ps.state = .tofuPending
  | _ => True

end SlotPart

section Trace

variable (P : Primitives) (E : Env) (i : Slot)

/-- The state in which slot `i` is drained: the slots in front of it have been. -/
def drainedBefore (s : AppState) : AppState :=
  (slots.takeWhile (· ≠ i)).foldl (fun t j => t.onSlot j (drainSlot P E j)) s

/-- The part of slot `i` in an event, if it has one. -/
def eventParts (s : AppState) : AppEvent → List SlotPart
  | .drain => [.drain ((drainedBefore P E i s).view i)]
  | .line text =>
      if pendingSlots s = [i] ∧ isYes (cstr text) = true then [.answer (s.view i)] else []
  | .peer fd out inp =>
      if findPeerByFd s fd = some i ∧ inp = true then
        [.read fd (if out then writeSlot P E i (s.view i) else s.view i)]
      else []
  | _ => []

/-- The parts of slot `i` in a run. -/
def slotTrace (s : AppState) : List AppEvent → List SlotPart
  | [] => []
  | ev :: evs => eventParts P E i s ev ++ slotTrace (appStep P E s ev) evs

/-- What an event with these parts does to slot `i`. -/
inductive SlotEffect (a b : PeerSession) : List SlotPart → Prop
  | quiet (h : QuietOrGone a b) : SlotEffect a b []
  | part (p : SlotPart) (hsound : p.Sound) (hbefore : Quiet a p.before.ps)
      (hafter : (p.result P E i).ps = b) : SlotEffect a b [p]

end Trace

section Slots

variable {i : Slot} {s : AppState} {f : Slot → View → View}

theorem foldSlots_peers
    {l : List Slot} (h : i ∉ l) (s : AppState) :
    (l.foldl (fun t j => t.onSlot j (f j)) s).peers i = s.peers i := by
  induction l generalizing s with
  | nil =>
      rfl
  | cons j l ih =>
      rw [List.mem_cons, not_or] at h
      rw [List.foldl_cons, ih h.2]
      simp [AppState.onSlot, AppState.put, h.1]

/-- The slots in front of slot `i`, slot `i`, and the others. -/
theorem slots_split
    (i : Slot) :
    slots = slots.takeWhile (· ≠ i) ++ i :: (slots.dropWhile (· ≠ i)).tail ∧
      i ∉ slots.takeWhile (· ≠ i) ∧ i ∉ (slots.dropWhile (· ≠ i)).tail := by
  revert i
  decide

/-- Slot `i` sees one call of the function, with its own fields untouched before. -/
theorem forSlots_peers
    (f : Slot → View → View) (i : Slot) (s : AppState) :
    ∃ u : View, u.ps = s.peers i ∧
      u = ((slots.takeWhile (· ≠ i)).foldl (fun t j => t.onSlot j (f j)) s).view i ∧
      (forSlots f s).peers i = (f i u).ps := by
  obtain ⟨hsplit, hpre, hpost⟩ := slots_split i
  refine ⟨_, ?_, rfl, ?_⟩
  · exact foldSlots_peers hpre s
  · unfold forSlots
    rw [hsplit, List.foldl_append, List.foldl_cons, foldSlots_peers hpost, ← hsplit]
    simp [AppState.onSlot, AppState.put]

theorem forSlots_after
    (h : ∀ v, After v.ps (f i v).ps) :
    After (s.peers i) ((forSlots f s).peers i) := by
  obtain ⟨u, hu, -, hpeers⟩ := forSlots_peers f i s
  rw [hpeers, ← hu]
  exact h u

/-- A function on one slot. -/
theorem onSlot_quiet
    {j : Slot} {g : View → View}
    (h : j = i → QuietOrGone (s.view i).ps (g (s.view i)).ps) :
    QuietOrGone (s.peers i) ((s.onSlot j g).peers i) := by
  by_cases hj : j = i
  · subst hj
    have hpeers : (s.onSlot j g).peers j = (g (s.view j)).ps := by
      simp [AppState.onSlot, AppState.put]
    rw [hpeers]
    exact h rfl
  · have hpeers : (s.onSlot j g).peers i = s.peers i := by
      simp [AppState.onSlot, AppState.put, Ne.symm hj]
    rw [hpeers]
    exact Or.inl (Quiet.refl _)

/-- A slot in use is not the free one. -/
theorem freeSlot_ne
    {j : Slot} (hpast : (s.peers i).state.Past) (hfree : freeSlot s = some j) :
    j ≠ i := by
  rintro rfl
  have hidle := freeSlot_idle hfree
  rw [hidle] at hpast
  rcases hpast with h | h | h <;> cases h

end Slots

section Lines

variable {P : Primitives} {E : Env} {i : Slot} {s : AppState}

theorem sendAndReport_quiet
    (j : Slot) (msg : Bytes) (s : AppState) :
    QuietOrGone (s.peers i) ((sendAndReport P E j msg s).peers i) := by
  unfold sendAndReport
  apply onSlot_quiet
  rintro rfl
  have h := sendSegmentedMessageTo_rx (P := P) (E := E) (i := j) msg (s.view j)
  generalize sendSegmentedMessageTo P E j msg (s.view j) = r at h ⊢
  obtain ⟨_ | _, v1⟩ := r
  · exact quietOrGone_of_keptOrTorn (w := v1.uiPrintError _ []) h
  · exact quietOrGone_of_keptOrTorn (w := v1.say _ _ _) h

theorem quiet_of_peers
    {t : AppState} (h : t.peers = s.peers) :
    QuietOrGone (s.peers i) (t.peers i) := by
  rw [h]
  exact Or.inl (Quiet.refl _)

theorem QuietOrGone.ite
    {a : PeerSession} {p : Prop} [Decidable p] {t u : AppState}
    (ht : QuietOrGone a (t.peers i)) (hu : QuietOrGone a (u.peers i)) :
    QuietOrGone a ((if p then t else u).peers i) := by
  split
  · exact ht
  · exact hu

theorem connectCommand_quiet
    (target : Bytes) (hpast : (s.peers i).state.Past) :
    QuietOrGone (s.peers i) ((connectCommand P E target s).peers i) := by
  unfold connectCommand
  split
  · exact quiet_of_peers rfl
  split
  · exact quiet_of_peers rfl
  cases hfree : freeSlot s with
  | none =>
      exact quiet_of_peers rfl
  | some j =>
      dsimp only
      split
      · exact quiet_of_peers rfl
      split
      · exact quiet_of_peers rfl
      cases E.socks5Connect _ with
      | none =>
          exact quiet_of_peers rfl
      | some peerFd =>
          exact onSlot_quiet (s := { s with sh := _ })
            fun hj => absurd hj (freeSlot_ne hpast hfree)

theorem addCommand_peers
    (args : Bytes) (s : AppState) :
    (addCommand E args s).peers = s.peers := by
  unfold addCommand
  split
  · rfl
  dsimp only
  generalize nextWord (skipBlanks args) = w
  obtain ⟨onion, rest⟩ := w
  dsimp only
  split
  · rfl
  split
  · rfl
  split
  · rfl
  split
  · rfl
  split
  · rfl
  generalize dbAddContact E onion (skipBlanks rest) (Block.zero 32) s.sh = r
  obtain ⟨_ | _, sh⟩ := r <;> rfl

theorem findPeerByNameOrOnion_peers
    (s : AppState) (arg : Bytes) :
    (findPeerByNameOrOnion E s arg).2.peers = s.peers := by
  unfold findPeerByNameOrOnion
  dsimp only
  split
  · rfl
  split
  · rfl
  · split <;> rfl

theorem msgCommand_quiet
    (args : Bytes) :
    QuietOrGone (s.peers i) ((msgCommand P E args s).peers i) := by
  unfold msgCommand
  dsimp only
  generalize nextWord (skipBlanks args) = w
  obtain ⟨onion, rest⟩ := w
  dsimp only
  split
  · exact quiet_of_peers rfl
  split
  · exact quiet_of_peers rfl
  split
  · exact quiet_of_peers rfl
  have h1 := findPeerByNameOrOnion_peers (E := E) s onion
  generalize findPeerByNameOrOnion E s onion = r at h1 ⊢
  obtain ⟨found, s1⟩ := r
  dsimp only at h1 ⊢
  rw [← h1]
  split
  · exact sendAndReport_quiet _ _ s1
  split
  · exact quiet_of_peers rfl
  generalize queueSegmentedMessage E onion (skipBlanks rest) s1.sh = q
  obtain ⟨_ | _, sh⟩ := q
  · exact quiet_of_peers rfl
  · exact quiet_of_peers rfl

theorem fileCommand_quiet
    (args : Bytes) :
    QuietOrGone (s.peers i) ((fileCommand P E args s).peers i) := by
  unfold fileCommand
  cases sendablePeer s with
  | none =>
      exact quiet_of_peers rfl
  | some j =>
      apply onSlot_quiet
      rintro rfl
      exact Or.inl (quiet_of_rxView (i := j) (rxView_fileTransferStart _ _))

theorem foldSystem_peers
    {α : Type} (text : String) (f : α → List Bytes) (rows : List α) (s : AppState) :
    (rows.foldl (fun t row => t.uiPrintSystem text (f row)) s).peers = s.peers := by
  induction rows generalizing s with
  | nil =>
      rfl
  | cons row rows ih =>
      rw [List.foldl_cons, ih]
      rfl

theorem listCommand_peers
    (s : AppState) :
    (listCommand E s).peers = s.peers := by
  obtain ⟨ticks, es, lines, hlist, -, -⟩ := listCommand_eq E s
  rw [hlist]

theorem switchCommand_peers
    (args : Bytes) (s : AppState) :
    (switchCommand E args s).peers = s.peers := by
  unfold switchCommand
  dsimp only
  split
  · rfl
  have h1 := findPeerByNameOrOnion_peers (E := E) s (skipBlanks args)
  generalize findPeerByNameOrOnion E s (skipBlanks args) = r at h1 ⊢
  obtain ⟨_ | i, s1⟩ := r
  · exact h1
  · dsimp only
    split
    · exact h1
    · exact h1

theorem disconnectCommand_quiet :
    QuietOrGone (s.peers i) ((disconnectCommand P E s).peers i) := by
  unfold disconnectCommand
  cases s.activePeer with
  | none =>
      exact quiet_of_peers rfl
  | some j =>
      dsimp only
      split
      · exact quiet_of_peers rfl
      · exact onSlot_quiet (g := fun v => (smDispatch P E j .peerDisconnected v).2)
          fun _ => Or.inr (peerDisconnected_gone _)

theorem commandLine_quiet
    (line : Bytes) (hpast : (s.peers i).state.Past) :
    QuietOrGone (s.peers i) ((commandLine P E line s).peers i) := by
  have hsystem : ∀ t a, QuietOrGone (s.peers i) ((s.uiPrintSystem t a).peers i) :=
    fun _ _ => quiet_of_peers rfl
  have herror : ∀ t a, QuietOrGone (s.peers i) ((s.uiPrintError t a).peers i) :=
    fun _ _ => quiet_of_peers rfl
  unfold commandLine
  refine QuietOrGone.ite ?_ ?_
  · -- a line that begins with two slashes
    cases sendablePeer s with
    | none =>
        exact quiet_of_peers rfl
    | some j =>
        exact sendAndReport_quiet j _ s
  apply QuietOrGone.ite (quiet_of_peers rfl)
  apply QuietOrGone.ite (hsystem _ _)
  apply QuietOrGone.ite (hsystem _ _)
  apply QuietOrGone.ite (quiet_of_peers (addCommand_peers _ s))
  apply QuietOrGone.ite (msgCommand_quiet _)
  apply QuietOrGone.ite (connectCommand_quiet _ hpast)
  apply QuietOrGone.ite (fileCommand_quiet _)
  apply QuietOrGone.ite (quiet_of_peers (listCommand_peers s))
  apply QuietOrGone.ite (quiet_of_peers (switchCommand_peers _ s))
  apply QuietOrGone.ite disconnectCommand_quiet
  apply QuietOrGone.ite (hsystem _ _)
  apply QuietOrGone.ite (herror _ _)
  exact herror _ _

theorem messageLine_quiet
    (line : Bytes) :
    QuietOrGone (s.peers i) ((messageLine P E line s).peers i) := by
  unfold messageLine
  cases sendablePeer s with
  | none =>
      exact quiet_of_peers rfl
  | some j =>
      exact QuietOrGone.ite (quiet_of_peers rfl) (sendAndReport_quiet j line s)

/-- A no tears the slot down. -/
theorem tofuAnswerNo_gone
    {v : View} (hst : v.ps.state = .tofuPending) :
    (tofuAnswerNo P E i v).ps.state = .idle := by
  unfold tofuAnswerNo
  rw [smDispatch_torn (t := ⟨.tofuPending, .tofuRejected, .idle, .cleanup⟩) (by
    show findTransition v.ps.state _ = _
    rw [hst]
    rfl) rfl]
  rfl

/-- A line of the user is an answer for slot `i`, or leaves it alone. -/
theorem processLine_effect
    (line : Bytes) (hpast : (s.peers i).state.Past) :
    SlotEffect P E i (s.peers i) ((processLine P E line s).peers i)
      (if pendingSlots s = [i] ∧ isYes line = true then [.answer (s.view i)] else []) := by
  by_cases hans : pendingSlots s ≠ [] ∧ (isYes line = true ∨ isNo line = true)
  · have heq : processLine P E line s = tofuUserResponse P E (isYes line) s := by
      unfold processLine
      rw [if_pos hans]
    rw [heq]
    unfold tofuUserResponse
    rcases hp : pendingSlots s with _ | ⟨j, _ | ⟨k, rest⟩⟩
    · exact absurd hp hans.1
    · have hst : (s.peers j).state = .tofuPending := by
        have hmem : j ∈ pendingSlots s := by
          rw [hp]
          exact List.mem_singleton_self j
        simpa [pendingSlots] using (List.mem_filter.mp hmem).2
      dsimp only
      by_cases hyes : isYes line = true
      · by_cases hj : j = i
        · subst hj
          rw [if_pos hyes, if_pos ⟨rfl, hyes⟩]
          refine .part (.answer (s.view j)) hst (Quiet.refl _) ?_
          simp [SlotPart.result, AppState.onSlot, AppState.put]
        · have hne : ¬ ([j] = [i] ∧ isYes line = true) := by
            simp [hj]
          rw [if_neg hne]
          exact .quiet (onSlot_quiet fun h => absurd h hj)
      · rw [if_neg hyes, if_neg (fun h => hyes h.2)]
        refine .quiet (onSlot_quiet ?_)
        rintro rfl
        exact Or.inr (tofuAnswerNo_gone hst)
    · rw [if_neg (by simp)]
      refine .quiet (quiet_of_peers ?_)
      exact foldSystem_peers _ _ _ _
  · have hno : ¬ (pendingSlots s = [i] ∧ isYes line = true) := by
      rintro ⟨hp, hyes⟩
      exact hans ⟨by rw [hp]; simp, Or.inl hyes⟩
    rw [if_neg hno]
    apply SlotEffect.quiet
    unfold processLine
    rw [if_neg hans]
    apply QuietOrGone.ite (quiet_of_peers rfl)
    apply QuietOrGone.ite (quiet_of_peers rfl)
    apply QuietOrGone.ite (commandLine_quiet line hpast)
    exact messageLine_quiet line

end Lines

section Events

variable {P : Primitives} {E : Env} {i : Slot} {s : AppState}

theorem torCheck_after
    (s : AppState) :
    After (s.peers i) ((torCheck P E s).peers i) := by
  unfold torCheck
  dsimp only
  generalize torDead E s.sh = r
  split
  · have h := forSlots_after (i := i) (s := { s with sh := r.2 }) (f := torDiedSlot P E)
      (fun v => torDiedSlot_after v)
    generalize forSlots (torDiedSlot P E) { s with sh := r.2 } = t at h ⊢
    exact h
  · exact ⟨fun _ => Or.inl (Quiet.refl _), id⟩

theorem acceptPeer_quiet
    (hpast : (s.peers i).state.Past) :
    QuietOrGone (s.peers i) ((acceptPeer P E s).peers i) := by
  unfold acceptPeer
  dsimp only
  cases E.accept s.sh.tick with
  | none =>
      exact quiet_of_peers rfl
  | some peerFd =>
      dsimp only
      cases hfree : freeSlot { s with sh := { s.sh with tick := s.sh.tick + 1 } } with
      | none =>
          exact quiet_of_peers rfl
      | some j =>
          dsimp only
          split
          · exact quiet_of_peers rfl
          · exact onSlot_quiet (s := { s with sh := _ })
              fun hj => absurd hj (freeSlot_ne (s := { s with sh := _ }) hpast hfree)

theorem peerReady_effect
    (fd : Nat) (out inp : Bool) :
    SlotEffect P E i (s.peers i) ((peerReady P E fd out inp s).peers i)
      (eventParts P E i s (.peer fd out inp)) := by
  have hwrite : Quiet (s.peers i) (if out then writeSlot P E i (s.view i) else s.view i).ps := by
    split
    · exact quiet_of_rxView (i := i) (v := s.view i) (rxView_writeSlot _)
    · exact Quiet.refl _
  dsimp only [eventParts]
  unfold peerReady
  generalize findPeerByFd s fd = found
  cases found with
  | none =>
      rw [if_neg (by simp)]
      exact .quiet (quiet_of_peers rfl)
  | some j =>
      dsimp only
      by_cases hj : j = i
      · subst hj
        cases inp with
        | true =>
            rw [if_pos ⟨rfl, rfl⟩]
            refine .part _ trivial hwrite ?_
            simp [SlotPart.result, AppState.onSlot, AppState.put]
        | false =>
            rw [if_neg (by simp)]
            exact .quiet (onSlot_quiet fun _ => Or.inl hwrite)
      · rw [if_neg (by simp [hj])]
        exact .quiet (onSlot_quiet fun h => absurd h hj)

/-- A step of the application, as slot `i` sees it. -/
theorem appStep_slotEffect
    (ev : AppEvent) (hpast : (s.peers i).state.Past) :
    SlotEffect P E i (s.peers i) ((appStep P E s ev).peers i) (eventParts P E i s ev) := by
  cases ev with
  | timeouts =>
      exact .quiet ((forSlots_after (f := sweepSlot P E) (fun v => sweepSlot_after v)).1 hpast)
  | torCheck =>
      exact .quiet ((torCheck_after s).1 hpast)
  | drain =>
      obtain ⟨u, hu, heq, hpeers⟩ := forSlots_peers (drainSlot P E) i s
      refine .part (.drain ((drainedBefore P E i s).view i)) trivial ?_ ?_
      · show Quiet (s.peers i) ((drainedBefore P E i s).view i).ps
        rw [drainedBefore, ← heq, hu]
        exact Quiet.refl _
      · show _ = (forSlots (drainSlot P E) s).peers i
        rw [hpeers, heq]
        rfl
  | line text =>
      exact processLine_effect (cstr text) hpast
  | accept =>
      exact .quiet (acceptPeer_quiet hpast)
  | peer fd out inp =>
      exact peerReady_effect fd out inp

theorem slotTrace_append
    (s : AppState) (evs : List AppEvent) (ev : AppEvent) :
    slotTrace P E i s (evs ++ [ev]) =
      slotTrace P E i s evs ++ eventParts P E i (appRun P E s evs) ev := by
  induction evs generalizing s with
  | nil =>
      simp [slotTrace]
  | cons e evs ih =>
      rw [List.cons_append, slotTrace, ih, slotTrace, appRun_cons, List.append_assoc]

end Events

end App
end Noxtor
