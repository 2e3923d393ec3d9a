import Noxtor.App.Chunking
import Noxtor.App.RecordIntegrity
import Noxtor.App.TransmitStream

/-!
# What the file sender puts on the wire

A transfer starts with a METADATA record, goes on with the chunks that `read` returns, and texts
may be sent in between.  `Sending` is the state of such a transfer: the records that have been
sealed since it started, of which all but the frame in `tx_buf` are on the wire, and how much of
the file is in them.

A step keeps it, or the transfer is given up and does not come back (`sending_step`).
-/

namespace Noxtor
namespace App

open ByteString Noise

/-- The frames for records that are sealed one after the other, from nonce `n` on. -/
def sealRecords (P : Primitives) (k : Key) :
    UInt64 → List (UInt8 × Bytes) → List (UInt8 × Bytes)
  | _, [] => []
  | n, (type, pt) :: records => (type, sealedAt P k n pt) :: sealRecords P k (n + 1) records

/-- The plaintexts of the FILE records. -/
def fileRecords (records : List (UInt8 × Bytes)) : List Bytes :=
  (records.filter fun r => r.1 = noxMsgFile).map Prod.snd

/-- A record as the senders make them. -/
def WellFormedRecord (r : UInt8 × Bytes) : Prop :=
  (r.1 = noxMsgText ∨ r.1 = noxMsgFile) ∧ r.2 ≠ [] ∧ r.2.length ≤ noxMaxMsgLen

section Records

variable {P : Primitives} {k : Key}

theorem sealRecords_snoc
    (n : UInt64) (records : List (UInt8 × Bytes)) (r : UInt8 × Bytes) :
    sealRecords P k n (records ++ [r]) = sealRecords P k n records ++
      [(r.1, sealedAt P k (n + UInt64.ofNat records.length) r.2)] := by
  induction records generalizing n with
  | nil => simp [sealRecords]
  | cons r' records ih =>
      have hnonce : n + 1 + UInt64.ofNat records.length =
          n + UInt64.ofNat (records.length + 1) := by
        rw [UInt64.ofNat_add, UInt64.add_assoc, UInt64.add_comm (UInt64.ofNat records.length)]
        rfl
      rw [List.cons_append, sealRecords, sealRecords, ih, hnonce]
      rfl

theorem sealRecords_length
    (n : UInt64) (records : List (UInt8 × Bytes)) :
    (sealRecords P k n records).length = records.length := by
  induction records generalizing n with
  | nil => rfl
  | cons r records ih => rw [sealRecords, List.length_cons, List.length_cons, ih]

theorem encodeFrames_seal_snoc
    (seq : UInt32) (n : UInt64) (records : List (UInt8 × Bytes)) (r : UInt8 × Bytes) :
    encodeFrames seq (sealRecords P k n (records ++ [r])) =
      encodeFrames seq (sealRecords P k n records) ++
        frameBytes r.1 (seq + UInt32.ofNat records.length)
          (sealedAt P k (n + UInt64.ofNat records.length) r.2) := by
  rw [sealRecords_snoc, encodeFrames_append, sealRecords_length, encodeFrames, encodeFrames,
    List.append_nil]

theorem fileRecords_text
    (records : List (UInt8 × Bytes)) (pt : Bytes) :
    fileRecords (records ++ [(noxMsgText, pt)]) = fileRecords records := by
  have htype : noxMsgText ≠ noxMsgFile := by decide
  simp [fileRecords, List.filter_append, htype]

theorem fileRecords_file
    (records : List (UInt8 × Bytes)) (pt : Bytes) :
    fileRecords (records ++ [(noxMsgFile, pt)]) = fileRecords records ++ [pt] := by
  simp [fileRecords, List.filter_append]

end Records

/-- A plaintext that `file_transfer_handle_rx` takes for a METADATA record. -/
def TakenForMetadata (pt : Bytes) : Prop :=
  pt.length = 305 ∧ pt.take 9 = metadataTag

instance (pt : Bytes) : Decidable (TakenForMetadata pt) :=
  inferInstanceAs (Decidable (_ ∧ _))

/-- How much of the file `content` is in the chunks. -/
structure Chunked (content : Bytes) (tx : FileTx) (chunks : List Bytes) : Prop where
  total : tx.totalSize = content.length
  bytes : chunks.flatten = content.take (tx.sentBytes + tx.currentChunkSize)
  bound : tx.sentBytes + tx.currentChunkSize ≤ content.length
  idle : tx.pending = [] → tx.currentChunkSize = 0

/--
The records of a transfer of `content` since its start, where `k`, `n` and `seq` were the key and
the counters and `base` was on the wire: the last one may be waiting in `tx_buf`.
-/
structure Sending (P : Primitives) (k : Key) (n : UInt64) (seq : UInt32) (base metadata : Bytes)
    (content : Bytes) (ps : PeerSession) (sent : Bytes) (records : List (UInt8 × Bytes)) :
    Prop where
  session : ∃ s, ps.session = some s ∧ s.tx.k = k ∧ s.tx.hasKey = true ∧
    s.tx.n.toNat = n.toNat + records.length
  live : ps.state ≠ .idle
  active : ps.txFile.active = true
  buf : ps.txFile.pending = [] → ps.txFile.txBuf = []
  wire : sent ++ ps.txFile.pending = base ++ encodeFrames seq (sealRecords P k n records)
  number : ps.txSeq + (if ps.txFile.pending = [] then 0 else 1) = seq + UInt32.ofNat records.length
  formed : ∀ r ∈ records, WellFormedRecord r
  files : ∃ chunks, fileRecords records = metadata :: chunks ∧
    Chunked content ps.txFile chunks ∧
    ∀ chunk ∈ chunks, ¬ TakenForMetadata chunk

section Steps

variable {P : Primitives} {E : Env} {i : Slot} {k : Key} {n : UInt64} {seq : UInt32}
  {base metadata content : Bytes} {v : View} {records : List (UInt8 × Bytes)}

/-- The transfer goes on, or it has been given up. -/
def SendingOrOver (P : Primitives) (i : Slot) (k : Key) (n : UInt64) (seq : UInt32)
    (base metadata content : Bytes) (v : View) : Prop :=
  v.ps.txFile.active = false ∨
    ∃ records, Sending P k n seq base metadata content v.ps (sentOn i v.sh.log) records

/-- The same, with no frame waiting in `tx_buf`. -/
def RestingOrOver (P : Primitives) (i : Slot) (k : Key) (n : UInt64) (seq : UInt32)
    (base metadata content : Bytes) (v : View) : Prop :=
  v.ps.txFile.active = false ∨
    ∃ records, Sending P k n seq base metadata content v.ps (sentOn i v.sh.log) records ∧
      v.ps.txFile.pending = []

theorem tornDown_inactive
    (v : View) :
    (tornDown i v).ps.txFile.active = false := by
  have htx : (tornDown i v).ps.txFile =
      if v.ps.txFile.active then { fd := -1 } else v.ps.txFile := rfl
  rw [htx]
  split
  · rfl
  · rename_i h
    exact Bool.not_eq_true _ ▸ h

theorem disconnected_inactive
    (h : v.ps.state ≠ .idle) :
    (smDispatch P E i .peerDisconnected v).2.ps.txFile.active = false := by
  rw [smDispatch_peerDisconnected, if_neg h]
  exact tornDown_inactive v

/-- What one text does: a frame, nothing, or the slot is torn down. -/
inductive TextSent (P : Primitives) (E : Env) (i : Slot) (pt : Bytes) (v : View) (s : NoiseSession) :
    Result → Prop where
  | frame {u : View} (below : s.tx.n < uint64Max)
      (whole : takesAll (E.write v.sh.tick) (frameSize pt.length) = true)
      (session : u.ps.session = some { s with tx := { s.tx with n := s.tx.n + 1 } })
      (state : u.ps.state = v.ps.state) (txFile : u.ps.txFile = v.ps.txFile)
      (txSeq : u.ps.txSeq = v.ps.txSeq + 1)
      (sent : sentOn i u.sh.log = sentOn i v.sh.log ++
        frameBytes noxMsgText v.ps.txSeq (sealedAt P s.tx.k s.tx.n pt)) :
      TextSent P E i pt v s (.ok (), u)
  | exhausted {err : NoxErr} {u : View} (session : u.ps.session = some s)
      (state : u.ps.state = v.ps.state) (txFile : u.ps.txFile = v.ps.txFile)
      (txSeq : u.ps.txSeq = v.ps.txSeq) (sent : sentOn i u.sh.log = sentOn i v.sh.log) :
      TextSent P E i pt v s (.error err, u)
  | refused {err : NoxErr} {u : View} (gone : u.ps.txFile.active = false) :
      TextSent P E i pt v s (.error err, u)

theorem sendText_sent
    {pt : Bytes} {s : NoiseSession} (hs : v.ps.session = some s) (hk : s.tx.hasKey = true)
    (hlive : v.ps.state ≠ .idle) (hpt : pt.length ≤ noxMaxMsgLen) :
    TextSent P E i pt v s (sendText P E i pt v) := by
  unfold sendText
  rw [hs]
  rcases noiseEncrypt_cases (P := P) hk hpt with ⟨hbelow, heq⟩ | ⟨hge, heq⟩
  · rw [heq]
    dsimp only
    generalize hv1 : (v.setPs fun ps => { ps with session := _ }) = v1
    have hps1 : v1.ps = { v.ps with
        session := some { s with tx := { s.tx with n := s.tx.n + 1 } } } := by
      rw [← hv1]
      rfl
    have hsh1 : v1.sh = v.sh := by
      rw [← hv1]
      rfl
    have hlive1 : v1.ps.state ≠ .idle := by rwa [hps1]
    have hlen : (frameBytes noxMsgText v1.ps.txSeq
        (P.aeadEncrypt s.tx.k (encodeNonce s.tx.n) [] pt)).length = frameSize pt.length := by
      rw [frameBytes_length, P.aeadEncrypt_length]
      rfl
    have hseq1 : v1.ps.txSeq = v.ps.txSeq := by rw [hps1]
    rcases sockWrite_takesAll (E := E) (i := i) (frameBytes noxMsgText v1.ps.txSeq
      (P.aeadEncrypt s.tx.k (encodeNonce s.tx.n) [] pt)) v1 with ⟨hall, hw⟩ | ⟨-, hpart⟩
    · rw [hlen, hsh1] at hall
      rw [hw]
      dsimp only
      rw [if_neg (by rw [frameBytes_length]; simp)]
      refine .frame hbelow hall ?_ ?_ ?_ ?_ ?_
      · change v1.ps.session = _
        rw [hps1]
      · change v1.ps.state = _
        rw [hps1]
      · change v1.ps.txFile = _
        rw [hps1]
      · change v1.ps.txSeq + 1 = _
        rw [hseq1]
      · change sentOn i (v1.tickOn.emit [.sent i _]).sh.log = _
        rw [emit_log_sent, View.tickOn]
        change sentOn i v1.sh.log ++ _ = _
        rw [hsh1, hseq1]
        rfl
    · have hps := sockWrite_ps E i (frameBytes noxMsgText v1.ps.txSeq
        (P.aeadEncrypt s.tx.k (encodeNonce s.tx.n) [] pt)) v1
      generalize sockWrite E i _ v1 = w at hps hpart ⊢
      obtain ⟨r, v2⟩ := w
      have hlive2 : v2.ps.state ≠ .idle := by
        rw [show v2.ps = v1.ps from hps]
        exact hlive1
      cases r with
      | ok m =>
          have hlt := hpart m rfl
          rw [frameBytes_length] at hlt
          dsimp only
          rw [if_pos (by omega)]
          exact .refused (disconnected_inactive hlive2)
      | eagain => exact .refused (disconnected_inactive hlive2)
      | eintr => exact .refused (disconnected_inactive hlive2)
      | err => exact .refused (disconnected_inactive hlive2)
  · rw [heq]
    refine .exhausted ?_ rfl rfl rfl rfl
    have hmax : s.tx.n = uint64Max := by
      apply UInt64.toNat_inj.mp
      have h1 := UInt64.le_iff_toNat_le.mp hge
      have h2 := s.tx.n.toNat_lt
      rw [uint64Max_toNat] at h1 ⊢
      omega
    change some { s with tx := { s.tx with n := uint64Max } } = some s
    rw [← hmax]

theorem sendText_inactive
    (pt : Bytes) (h : v.ps.txFile.active = false) :
    (sendText P E i pt v).2.ps.txFile.active = false := by
  unfold sendText
  generalize noiseEncrypt P v.ps.session (.data pt) true = enc
  obtain ⟨_ | ct, session⟩ := enc
  · exact h
  dsimp only
  generalize hv1 : (v.setPs fun ps => { ps with session := session }) = v1
  have h1 : v1.ps.txFile.active = false := by
    rw [← hv1]
    exact h
  have hps := sockWrite_ps E i (frameBytes noxMsgText v1.ps.txSeq ct) v1
  generalize sockWrite E i (frameBytes noxMsgText v1.ps.txSeq ct) v1 = w at hps ⊢
  obtain ⟨r, v2⟩ := w
  rw [← show v2.ps = v1.ps from hps] at h1
  have hdisc : (smDispatch P E i .peerDisconnected v2).2.ps.txFile.active = false := by
    rw [smDispatch_peerDisconnected]
    split
    · exact h1
    · exact tornDown_inactive v2
  cases r with
  | ok m =>
      dsimp only
      split
      · exact hdisc
      · exact h1
  | eagain => exact hdisc
  | eintr => exact hdisc
  | err => exact hdisc

theorem RestingOrOver.sending
    (h : RestingOrOver P i k n seq base metadata content v) :
    SendingOrOver P i k n seq base metadata content v :=
  h.imp id fun hsome => hsome.imp fun _ hsend => hsend.1

/-- A counter that has gone on by `m` without a wrap. -/
theorem nonce_eq
    {a b : UInt64} {m : Nat} (h : a.toNat = b.toNat + m) :
    a = b + UInt64.ofNat m := by
  have hlt := a.toNat_lt
  apply UInt64.toNat_inj.mp
  rw [UInt64.toNat_add, UInt64.toNat_ofNat']
  omega

theorem Sending.same
    {u : View} (h : Sending P k n seq base metadata content v.ps (sentOn i v.sh.log) records)
    (hsession : u.ps.session = v.ps.session) (hstate : u.ps.state = v.ps.state)
    (htx : u.ps.txFile = v.ps.txFile) (hseq : u.ps.txSeq = v.ps.txSeq)
    (hsent : sentOn i u.sh.log = sentOn i v.sh.log) :
    Sending P k n seq base metadata content u.ps (sentOn i u.sh.log) records := by
  obtain ⟨hses, hlive, hact, hbuf, hwire, hnum, hformed, hfiles⟩ := h
  rw [← hsession] at hses
  rw [← hstate] at hlive
  rw [← htx] at hact hbuf hwire hnum hfiles
  rw [← hseq] at hnum
  rw [← hsent] at hwire
  exact ⟨hses, hlive, hact, hbuf, hwire, hnum, hformed, hfiles⟩

/-- A text that was taken whole is one more record. -/
theorem Sending.text
    {u : View} {s : NoiseSession} {pt : Bytes}
    (h : Sending P k n seq base metadata content v.ps (sentOn i v.sh.log) records)
    (hidle : v.ps.txFile.pending = []) (hs : v.ps.session = some s)
    (hpt : pt ≠ [] ∧ pt.length ≤ noxMaxMsgLen) (hlt : s.tx.n < uint64Max)
    (hsession : u.ps.session = some { s with tx := { s.tx with n := s.tx.n + 1 } })
    (hstate : u.ps.state = v.ps.state) (htx : u.ps.txFile = v.ps.txFile)
    (hseq : u.ps.txSeq = v.ps.txSeq + 1)
    (hsent : sentOn i u.sh.log = sentOn i v.sh.log ++
      frameBytes noxMsgText v.ps.txSeq (sealedAt P s.tx.k s.tx.n pt)) :
    Sending P k n seq base metadata content u.ps (sentOn i u.sh.log)
      (records ++ [(noxMsgText, pt)]) := by
  obtain ⟨t, ht, hk, hhas, hn⟩ := h.session
  obtain rfl : t = s := Option.some.inj (ht.symm.trans hs)
  have hwire := h.wire
  have hnum := h.number
  rw [hidle, List.append_nil] at hwire
  rw [hidle, if_pos rfl, UInt32.add_zero] at hnum
  constructor
  · refine ⟨_, hsession, hk, hhas, ?_⟩
    rw [List.length_append, ← Nat.add_assoc, ← hn]
    exact toNat_succ_of_lt hlt
  · rw [hstate]
    exact h.live
  · rw [htx]
    exact h.active
  · rw [htx]
    exact h.buf
  · rw [htx, hidle, List.append_nil, hsent, hwire, encodeFrames_seal_snoc, hnum, hk, nonce_eq hn,
      List.append_assoc]
  · rw [htx, hidle, if_pos rfl, UInt32.add_zero, hseq, hnum, List.length_append,
      List.length_singleton, UInt32.ofNat_add, UInt32.add_assoc]
    rfl
  · intro r hr
    rcases List.mem_append.mp hr with hr | hr
    · exact h.formed r hr
    · rw [List.mem_singleton.mp hr]
      exact ⟨Or.inl rfl, hpt⟩
  · rw [htx, fileRecords_text]
    exact h.files

theorem sendText_resting
    {pt : Bytes} (hpt : pt ≠ [] ∧ pt.length ≤ noxMaxMsgLen)
    (h : RestingOrOver P i k n seq base metadata content v) :
    RestingOrOver P i k n seq base metadata content (sendText P E i pt v).2 := by
  rcases h with hgone | ⟨records, hsend, hidle⟩
  · exact Or.inl (sendText_inactive pt hgone)
  obtain ⟨s, hs, hk, hhas, hn⟩ := hsend.session
  have htext := sendText_sent (P := P) (E := E) (i := i) hs hhas hsend.live hpt.2
  generalize sendText P E i pt v = r at htext ⊢
  cases htext with
  | frame hlt whole session state txFile txSeq sent =>
      refine Or.inr ⟨_, hsend.text hidle hs hpt hlt session state txFile txSeq sent, ?_⟩
      rw [txFile]
      exact hidle
  | exhausted session state txFile txSeq sent =>
      right
      refine ⟨records, hsend.same (by rw [session, hs]) state txFile txSeq sent, ?_⟩
      rw [txFile]
      exact hidle
  | refused gone =>
      exact Or.inl gone

/-- A text that the socket does not take whole ends the transfer, or was not encrypted. -/
theorem sendText_waiting
    {pt : Bytes} (hpt : pt.length ≤ noxMaxMsgLen)
    (h : SendingOrOver P i k n seq base metadata content v)
    (hwrite : takesAll (E.write v.sh.tick) (frameSize pt.length) = false) :
    (sendText P E i pt v).2.ps.txFile.active = false ∨
      ((∃ err, (sendText P E i pt v).1 = .error err) ∧
        SendingOrOver P i k n seq base metadata content (sendText P E i pt v).2) := by
  rcases h with hgone | ⟨records, hsend⟩
  · exact Or.inl (sendText_inactive pt hgone)
  obtain ⟨s, hs, hk, hhas, hn⟩ := hsend.session
  have htext := sendText_sent (P := P) (E := E) (i := i) hs hhas hsend.live hpt
  generalize sendText P E i pt v = r at htext ⊢
  cases htext with
  | frame hlt whole session state txFile txSeq sent =>
      rw [hwrite] at whole
      cases whole
  | exhausted session state txFile txSeq sent =>
      exact Or.inr ⟨⟨_, rfl⟩,
        Or.inr ⟨records, hsend.same (by rw [session, hs]) state txFile txSeq sent⟩⟩
  | refused gone =>
      exact Or.inl gone

theorem segmentLoop_inactive
    (msg : Bytes) (fuel offset : Nat) {v : View} (h : v.ps.txFile.active = false) :
    (segmentLoop P E i msg fuel offset v).2.ps.txFile.active = false := by
  induction fuel generalizing offset v with
  | zero =>
      exact h
  | succ fuel ih =>
      unfold segmentLoop
      split
      · have h1 := sendText_inactive (P := P) (E := E) (i := i)
          ((msg.drop offset).take (noxNextChunkSize msg offset msg.length) ++ [0]) h
        dsimp only
        generalize sendText P E i _ v = r at h1 ⊢
        obtain ⟨_ | _, v1⟩ := r
        · exact h1
        · exact ih _ h1
      · exact h

theorem segmentLoop_resting
    (msg : Bytes) (fuel offset : Nat) {v : View}
    (h : RestingOrOver P i k n seq base metadata content v) :
    RestingOrOver P i k n seq base metadata content (segmentLoop P E i msg fuel offset v).2 := by
  induction fuel generalizing offset v with
  | zero =>
      exact h
  | succ fuel ih =>
      unfold segmentLoop
      split
      · rename_i hoff
        have hb := noxNextChunkSize_bounds msg hoff
        have hlen : ((msg.drop offset).take (noxNextChunkSize msg offset msg.length) ++
            [0]).length ≤ noxMaxMsgLen := by
          rw [List.length_append, List.length_take, List.length_singleton]
          show _ ≤ 4096
          omega
        have h1 := sendText_resting (E := E) ⟨by simp, hlen⟩ h
        dsimp only
        generalize sendText P E i _ v = r at h1 ⊢
        obtain ⟨_ | _, v1⟩ := r
        · exact h1
        · exact ih _ h1
      · exact h

/-- A message: its texts, or with a frame in `tx_buf` at most a refused one. -/
theorem message_sending
    {msg : Bytes} (h : SendingOrOver P i k n seq base metadata content v)
    (hfine : TxFine P E v (.message msg)) :
    SendingOrOver P i k n seq base metadata content (sendSegmentedMessageTo P E i msg v).2 := by
  unfold sendSegmentedMessageTo
  split
  · exact h
  rename_i hguard
  rw [not_or, not_lt] at hguard
  dsimp only
  split
  · exact h
  rename_i hmalloc
  have hm : E.malloc v.sh.tick = true ∧ E.malloc (v.sh.tick + 1) = true := by
    simpa [sodiumMalloc, View.tickOn] using hmalloc
  have hv1 : SendingOrOver P i k n seq base metadata content
      (sodiumMalloc E (sodiumMalloc E v).2).2 := h
  have htick : (sodiumMalloc E (sodiumMalloc E v).2).2.sh.tick = v.sh.tick + 2 := rfl
  have htx : (sodiumMalloc E (sodiumMalloc E v).2).2.ps = v.ps := rfl
  generalize (sodiumMalloc E (sodiumMalloc E v).2).2 = v1 at hv1 htick htx ⊢
  by_cases hidle : v.ps.txFile.pending = []
  · refine (segmentLoop_resting msg _ _ ?_).sending
    rw [← htx] at hidle
    exact hv1.imp id fun hsome => hsome.imp fun _ hsend => ⟨hsend, hidle⟩
  · -- only the first text can be written
    cases hlen : msg.length with
    | zero =>
        exact hv1
    | succ fuel =>
        have hne : msg ≠ [] := by
          rintro rfl
          cases hlen
        have hno : takesAll (E.write v1.sh.tick)
            (frameSize (noxNextChunkSize msg 0 msg.length + 1)) = false := by
          rw [htick]
          by_contra hyes
          rw [Bool.not_eq_false] at hyes
          exact hidle (hfine ⟨hguard.1, hguard.2, hm.1, hm.2, hne, hyes⟩)
        have hb := noxNextChunkSize_bounds msg (show 0 < msg.length by omega)
        have hchunk : ((msg.drop 0).take (noxNextChunkSize msg 0 msg.length) ++ [0]).length =
            noxNextChunkSize msg 0 msg.length + 1 := by
          rw [List.length_append, List.length_take, List.drop_zero, List.length_singleton]
          omega
        rw [← hchunk] at hno
        have h1 := sendText_waiting (by rw [hchunk]; show _ ≤ 4096; omega) hv1 hno
        unfold segmentLoop
        rw [if_pos (by omega)]
        dsimp only
        generalize sendText P E i _ v1 = r at h1 ⊢
        obtain ⟨_ | _, v2⟩ := r
        · exact h1.elim Or.inl (fun h => h.2)
        · rcases h1 with hgone | ⟨⟨err, herr⟩, -⟩
          · exact Or.inl (segmentLoop_inactive msg _ _ hgone)
          · cases herr

/-- A queued text. -/
theorem queued_sending
    {text : Bytes} (h : SendingOrOver P i k n seq base metadata content v)
    (hfine : TxFine P E v (.queued text)) :
    SendingOrOver P i k n seq base metadata content (sendQueuedCallback P E i text v).2 := by
  unfold sendQueuedCallback
  split
  · exact h
  rename_i hguard
  rw [not_or, not_lt] at hguard
  split
  · exact h
  rename_i hlen
  rw [not_lt] at hlen
  unfold sodiumMalloc
  cases hm : E.malloc v.sh.tick with
  | false =>
      exact h
  | true =>
      dsimp only
      have hpt : (text ++ [0]).length = text.length + 1 := by
        simp
      by_cases hidle : v.ps.txFile.pending = []
      · refine (sendText_resting ⟨by simp, by rw [hpt]; exact hlen⟩ ?_).sending
        exact h.imp id fun hsome => hsome.imp fun _ hsend => ⟨hsend, hidle⟩
      · have hno : takesAll (E.write v.tickOn.sh.tick) (frameSize (text ++ [0]).length) =
            false := by
          by_contra hyes
          rw [Bool.not_eq_false, hpt] at hyes
          exact hidle (hfine ⟨hguard.2, hguard.1, hm, hlen, hyes⟩)
        exact (sendText_waiting (v := v.tickOn) (by rw [hpt]; exact hlen) h hno).elim Or.inl
          fun h => h.2

/-- The line that reports a complete transfer. -/
def txDoneLine (totalSize : Nat) : UiLine :=
  ⟨.system, "[✓] Dosya gönderimi tamamlandı (%lu byte)", [decimal totalSize]⟩

/-- The chunk that a step of the file sender reads, if it gets there. -/
def diskChunk (E : Env) (v : View) : Option Bytes :=
  if v.ps.fd < 0 ∨ v.ps.txFile.active = false ∨ v.ps.txFile.txLen > 0 then none
  else
    match E.fileRead v.sh.tick with
    | .data b => some (b.take (min (v.ps.txFile.totalSize - v.ps.txFile.sentBytes) 4096))
    | _ => none

/-- Everything is on the wire. -/
structure Sent (P : Primitives) (k : Key) (n : UInt64) (seq : UInt32) (base metadata : Bytes)
    (content : Bytes) (sent : Bytes) (records : List (UInt8 × Bytes)) : Prop where
  wire : sent = base ++ encodeFrames seq (sealRecords P k n records)
  nonces : n.toNat + records.length < 2 ^ 64
  formed : ∀ r ∈ records, WellFormedRecord r
  files : ∃ chunks, fileRecords records = metadata :: chunks ∧ chunks.flatten = content ∧
    ∀ chunk ∈ chunks, ¬ TakenForMetadata chunk

/-- What a step of the file sender does to a transfer. -/
inductive HandleSent (P : Primitives) (i : Slot) (k : Key) (n : UInt64) (seq : UInt32)
    (base metadata content : Bytes) (v u : View) : Prop where
  | goesOn (h : SendingOrOver P i k n seq base metadata content u)
      (hui : ∀ size, u.sh.ui ≠ v.sh.ui ++ [txDoneLine size])
  | complete {records : List (UInt8 × Bytes)} (gone : u.ps.txFile.active = false)
      (h : Sent P k n seq base metadata content (sentOn i u.sh.log) records)

theorem append_line_ne
    {l : List UiLine} {kind : UiKind} {text : String} {args : List Bytes} (h : kind ≠ .system)
    (size : Nat) :
    l ++ [⟨kind, text, args⟩] ≠ l ++ [txDoneLine size] := by
  intro heq
  have hline : (⟨kind, text, args⟩ : UiLine) = txDoneLine size := by simpa using heq
  exact h (congrArg UiLine.kind hline)

/-- The transfer is given up with an error. -/
theorem HandleSent.givenUp
    {u : View} (text : String) (args : List Bytes) (hui : u.sh.ui = v.sh.ui) :
    HandleSent P i k n seq base metadata content v (txClear (u.uiPrintError text args)) := by
  refine .goesOn (Or.inl rfl) ?_
  have herr : (txClear (u.uiPrintError text args)).sh.ui = v.sh.ui ++ [⟨.error, text, args⟩] := by
    rw [← hui]
    rfl
  rw [herr]
  exact append_line_ne (by decide)

theorem Chunked.same
    {tx tx' : FileTx} {chunks : List Bytes} (h : Chunked content tx chunks)
    (htotal : tx'.totalSize = tx.totalSize) (hsum : tx'.sentBytes + tx'.currentChunkSize =
      tx.sentBytes + tx.currentChunkSize) (hidle : tx'.pending = [] → tx'.currentChunkSize = 0) :
    Chunked content tx' chunks :=
  ⟨htotal.trans h.total, by rw [hsum]; exact h.bytes, by rw [hsum]; exact h.bound, hidle⟩

/-- The last byte of the frame in `tx_buf` has left. -/
theorem frameDone_sent
    {u : View} {offset : Nat}
    (h : Sending P k n seq base metadata content v.ps (sentOn i v.sh.log) records)
    (hwaits : v.ps.txFile.pending ≠ [])
    (hses : u.ps.session = v.ps.session) (hst : u.ps.state = v.ps.state)
    (hseq : u.ps.txSeq = v.ps.txSeq) (htx : u.ps.txFile = { v.ps.txFile with txOffset := offset })
    (hui : u.sh.ui = v.sh.ui)
    (hsent : sentOn i u.sh.log = sentOn i v.sh.log ++ v.ps.txFile.pending) :
    HandleSent P i k n seq base metadata content v (txFrameDone u) := by
  have hwire := h.wire
  rw [← hsent] at hwire
  have hnum := h.number
  rw [if_neg hwaits] at hnum
  obtain ⟨chunks, hfiles, hchunked, hclean⟩ := h.files
  have hsentBytes : u.ps.txFile.sentBytes = v.ps.txFile.sentBytes := by rw [htx]
  have hcur : u.ps.txFile.currentChunkSize = v.ps.txFile.currentChunkSize := by rw [htx]
  have htotal : u.ps.txFile.totalSize = v.ps.txFile.totalSize := by rw [htx]
  have hact : u.ps.txFile.active = true := by
    rw [htx]
    exact h.active
  unfold txFrameDone
  dsimp only
  split
  · rename_i hall
    change u.ps.txFile.sentBytes + u.ps.txFile.currentChunkSize ≥ u.ps.txFile.totalSize at hall
    rw [hsentBytes, hcur, htotal, hchunked.total] at hall
    refine .complete rfl ⟨hwire, ?_, h.formed, chunks, hfiles, ?_, hclean⟩
    · obtain ⟨s, -, -, -, hn⟩ := h.session
      have hlt := s.tx.n.toNat_lt
      omega
    · rw [hchunked.bytes, List.take_of_length_le hall]
  · refine .goesOn (Or.inr ⟨records, ?_⟩) ?_
    · refine ⟨?_, ?_, hact, fun _ => rfl, ?_, ?_, h.formed, chunks, hfiles, ?_, hclean⟩
      · obtain ⟨s, hs, hrest⟩ := h.session
        exact ⟨s, hses.trans hs, hrest⟩
      · change u.ps.state ≠ .idle
        rw [hst]
        exact h.live
      · exact (List.append_nil _).trans hwire
      · change u.ps.txSeq + 1 + 0 = _
        rw [hseq, UInt32.add_zero]
        exact hnum
      · refine hchunked.same htotal ?_ (fun _ => rfl)
        rw [← hsentBytes, ← hcur]
        rfl
    · intro size
      change u.sh.ui ++ _ ≠ _
      rw [hui]
      exact append_line_ne (by decide) size

/-- The socket takes `m` more bytes of the frame in `tx_buf`. -/
theorem advance_sent
    {m : Nat} {u : View}
    (h : Sending P k n seq base metadata content v.ps (sentOn i v.sh.log) records)
    (hwaits : v.ps.txFile.pending ≠ []) (hm : m ≤ v.ps.txFile.pending.length)
    (hps : u.ps = v.ps) (hui : u.sh.ui = v.sh.ui)
    (hsent : sentOn i u.sh.log = sentOn i v.sh.log ++ v.ps.txFile.pending.take m) :
    HandleSent P i k n seq base metadata content v (txAdvance E m u) := by
  have hlen : v.ps.txFile.pending.length = v.ps.txFile.txLen - v.ps.txFile.txOffset :=
    List.length_drop
  have hpos : 0 < v.ps.txFile.pending.length := List.length_pos_iff.mpr hwaits
  obtain ⟨ups, ush⟩ := u
  dsimp only at hps hui hsent
  subst hps
  unfold txAdvance
  dsimp only
  split
  · rename_i hdone
    change v.ps.txFile.txOffset + m = v.ps.txFile.txLen at hdone
    rw [List.take_of_length_le (by omega)] at hsent
    exact frameDone_sent h hwaits rfl rfl rfl rfl hui hsent
  · rename_i hdone
    change v.ps.txFile.txOffset + m ≠ v.ps.txFile.txLen at hdone
    have hleft : v.ps.txFile.txBuf.drop (v.ps.txFile.txOffset + m) ≠ [] := by
      rw [Ne, List.drop_eq_nil_iff]
      show ¬ v.ps.txFile.txLen ≤ _
      omega
    have hrest : v.ps.txFile.pending.drop m = v.ps.txFile.txBuf.drop (v.ps.txFile.txOffset + m) :=
      List.drop_drop
    refine .goesOn (Or.inr ⟨records, ?_⟩) ?_
    · change Sending P k n seq base metadata content _ (sentOn i ush.log) records
      rw [hsent]
      obtain ⟨chunks, hfiles, hchunked, hclean⟩ := h.files
      have hnum := h.number
      rw [if_neg hwaits] at hnum
      refine ⟨h.session, h.live, h.active, fun hnil => absurd hnil hleft, ?_, ?_, h.formed, chunks,
        hfiles, hchunked.same rfl rfl (fun hnil => absurd hnil hleft), hclean⟩
      · change _ ++ v.ps.txFile.txBuf.drop (v.ps.txFile.txOffset + m) = _
        rw [← hrest, List.append_assoc, List.take_append_drop]
        exact h.wire
      · change v.ps.txSeq + (if v.ps.txFile.txBuf.drop (v.ps.txFile.txOffset + m) = [] then 0
          else 1) = _
        rw [if_neg hleft]
        exact hnum
    · intro size
      change ush.ui ≠ _
      rw [hui]
      simp

theorem flush_sent
    (h : Sending P k n seq base metadata content v.ps (sentOn i v.sh.log) records)
    (hwaits : v.ps.txFile.pending ≠ []) :
    HandleSent P i k n seq base metadata content v (txFlush E i v) := by
  have hpos : 0 < v.ps.txFile.pending.length := List.length_pos_iff.mpr hwaits
  unfold txFlush sockWrite
  cases E.write v.sh.tick with
  | ok m =>
      dsimp only
      split
      · exact .givenUp _ _ rfl
      · refine advance_sent h hwaits (Nat.min_le_right _ _) rfl rfl ?_
        rw [emit_log_sent, List.take_eq_take_min]
        rfl
  | eagain =>
      exact .goesOn (Or.inr ⟨records, h⟩) (by simp [View.tickOn])
  | eintr =>
      exact .goesOn (Or.inr ⟨records, h⟩) (by simp [View.tickOn])
  | err =>
      exact .givenUp _ _ rfl

/-- The next chunk of the file waits in `tx_buf`. -/
theorem Sending.chunk
    {u : View} {s : NoiseSession} {chunk : Bytes}
    (h : Sending P k n seq base metadata content v.ps (sentOn i v.sh.log) records)
    (hidle : v.ps.txFile.pending = []) (hs : v.ps.session = some s) (hlt : s.tx.n < uint64Max)
    (hlen : chunk ≠ [] ∧ chunk.length ≤ noxMaxMsgLen)
    (hfile : chunk <+: content.drop v.ps.txFile.sentBytes) (hclean : ¬ TakenForMetadata chunk)
    (hps : u.ps = { v.ps with
      session := some { s with tx := { s.tx with n := s.tx.n + 1 } }
      txFile := { v.ps.txFile with
        currentChunkSize := chunk.length
        txBuf := frameBytes noxMsgFile v.ps.txSeq (sealedAt P s.tx.k s.tx.n chunk)
        txOffset := 0 } })
    (hsent : sentOn i u.sh.log = sentOn i v.sh.log) :
    Sending P k n seq base metadata content u.ps (sentOn i u.sh.log)
      (records ++ [(noxMsgFile, chunk)]) := by
  obtain ⟨t, ht, hk, hhas, hn⟩ := h.session
  obtain rfl : t = s := Option.some.inj (ht.symm.trans hs)
  have hwire := h.wire
  have hnum := h.number
  rw [hidle, List.append_nil] at hwire
  rw [hidle, if_pos rfl, UInt32.add_zero] at hnum
  have hne : frameBytes noxMsgFile v.ps.txSeq (sealedAt P t.tx.k t.tx.n chunk) ≠ [] := by
    intro hnil
    have hl := frameBytes_length noxMsgFile v.ps.txSeq (sealedAt P t.tx.k t.tx.n chunk)
    rw [hnil] at hl
    simp only [List.length_nil, frameHeaderWireSize] at hl
    omega
  obtain ⟨chunks, hfiles, hchunked, hcleans⟩ := h.files
  have hcur := hchunked.idle hidle
  have hbytes := hchunked.bytes
  have hle := hfile.length_le
  rw [List.length_drop] at hle
  rw [hcur, Nat.add_zero] at hbytes
  rw [hps, hsent]
  refine ⟨⟨_, rfl, hk, hhas, ?_⟩, h.live, h.active, fun hnil => absurd hnil hne, ?_, ?_, ?_,
    chunks ++ [chunk], ?_, ⟨hchunked.total, ?_, ?_, fun hnil => absurd hnil hne⟩, ?_⟩
  · rw [List.length_append, ← Nat.add_assoc, ← hn]
    exact toNat_succ_of_lt hlt
  · change _ ++ frameBytes _ _ _ = _
    rw [hwire, encodeFrames_seal_snoc, hnum, hk, nonce_eq hn, List.append_assoc]
  · change v.ps.txSeq + (if frameBytes _ _ _ = [] then 0 else 1) = _
    rw [if_neg hne, hnum, List.length_append, List.length_singleton, UInt32.ofNat_add,
      UInt32.add_assoc]
    rfl
  · intro r hr
    rcases List.mem_append.mp hr with hr | hr
    · exact h.formed r hr
    · rw [List.mem_singleton.mp hr]
      exact ⟨Or.inr rfl, hlen⟩
  · rw [fileRecords_file, hfiles, List.cons_append]
  · rw [List.flatten_append, List.flatten_singleton, hbytes, List.take_add,
      List.prefix_iff_eq_take.mp hfile, List.length_take, List.length_drop, Nat.min_eq_left hle]
  · change v.ps.txFile.sentBytes + chunk.length ≤ _
    have hpos := List.length_pos_iff.mpr hlen.1
    omega
  · intro c hc
    rcases List.mem_append.mp hc with hc | hc
    · exact hcleans c hc
    · rw [List.mem_singleton.mp hc]
      exact hclean

theorem buffer_sent
    {chunk : Bytes} {u : View}
    (h : Sending P k n seq base metadata content v.ps (sentOn i v.sh.log) records)
    (hidle : v.ps.txFile.pending = []) (hlen : chunk ≠ [] ∧ chunk.length ≤ noxMaxMsgLen)
    (hfile : chunk <+: content.drop v.ps.txFile.sentBytes) (hclean : ¬ TakenForMetadata chunk)
    (hps : u.ps = v.ps) (hui : u.sh.ui = v.sh.ui) (hlog : u.sh.log = v.sh.log) :
    HandleSent P i k n seq base metadata content v (txBuffer P chunk u) := by
  have hsize : ¬ frameHeaderWireSize + (chunk.length + noxMacLen) > txBufCapacity := by
    have : chunk.length ≤ 4096 := hlen.2
    show ¬ 13 + (chunk.length + 16) > 13 + 4096 + 16
    omega
  obtain ⟨ups, ush⟩ := u
  dsimp only at hps hui hlog
  subst hps
  obtain ⟨s, hs, hk, hhas, hn⟩ := h.session
  unfold txBuffer
  dsimp only
  rw [if_neg hsize]
  rw [show (View.setPs (fun ps => { ps with txFile := { ps.txFile with
    currentChunkSize := chunk.length } }) ⟨v.ps, ush⟩).ps.session = some s from hs]
  rcases noiseEncrypt_cases (P := P) hhas hlen.2 with ⟨hlt, heq⟩ | ⟨-, heq⟩
  · rw [heq]
    dsimp only
    rw [if_pos (by rw [P.aeadEncrypt_length]; omega)]
    refine .goesOn (Or.inr ⟨_, h.chunk hidle hs hlt hlen hfile hclean rfl (congrArg _ hlog)⟩) ?_
    intro size
    change ush.ui ≠ _
    rw [hui]
    simp
  · rw [heq]
    exact .givenUp _ _ hui

/-- What the step reads is the next part of the file, and no METADATA record. -/
def ReadsClean (E : Env) (content : Bytes) (v : View) : Prop :=
  ∀ chunk ∈ diskChunk E v, chunk <+: content.drop v.ps.txFile.sentBytes ∧ ¬ TakenForMetadata chunk

theorem handle_sent
    (h : SendingOrOver P i k n seq base metadata content v) (hread : ReadsClean E content v) :
    HandleSent P i k n seq base metadata content v (fileTransferHandleTx P E i v) := by
  have hui : ∀ size, v.sh.ui ≠ v.sh.ui ++ [txDoneLine size] := by
    simp
  unfold fileTransferHandleTx
  split
  · exact .goesOn h hui
  rename_i hguard
  rw [not_or, not_lt, Bool.not_eq_false] at hguard
  rcases h with hgone | ⟨records, hsend⟩
  · rw [hgone] at hguard
    cases hguard.2
  split
  · rename_i hbuf
    refine flush_sent hsend ?_
    intro hnil
    rw [FileTx.txLen, hsend.buf hnil] at hbuf
    exact absurd hbuf (Nat.lt_irrefl 0)
  · rename_i hbuf
    have hidle : v.ps.txFile.pending = [] := by
      unfold FileTx.pending
      rw [List.eq_nil_of_length_eq_zero (Nat.eq_zero_of_not_pos hbuf), List.drop_nil]
    have hskip : ¬ (v.ps.fd < 0 ∨ v.ps.txFile.active = false ∨ v.ps.txFile.txLen > 0) := by
      rw [hguard.2]
      simp [hguard.1, hbuf]
    unfold ReadsClean diskChunk at hread
    rw [if_neg hskip] at hread
    unfold txNext
    dsimp only
    split
    · exact .goesOn (Or.inl rfl) hui
    cases hdata : E.fileRead v.sh.tick with
    | data b =>
        rw [hdata] at hread
        obtain ⟨hfile, hclean⟩ := hread _ rfl
        dsimp only
        split
        · exact .givenUp _ _ rfl
        · rename_i hne
          refine buffer_sent hsend hidle ⟨hne, ?_⟩ hfile hclean rfl rfl rfl
          rw [List.length_take]
          show _ ≤ 4096
          omega
    | eintr =>
        exact .goesOn (Or.inr ⟨records, hsend⟩) hui
    | eagain =>
        exact .givenUp _ _ rfl
    | err =>
        exact .givenUp _ _ rfl

/-- What the loop that hashes the source file reads, unless a read fails. -/
def fileReads : List ReadResult → Option Bytes
  | [] => some []
  | .data [] :: _ => some []
  | .data b :: rest => (fileReads rest).map (b.take 4096 ++ ·)
  | .eintr :: rest => fileReads rest
  | .eagain :: _ => none
  | .err :: _ => none

/-- The source file holds `content`. -/
structure HoldsFile (E : Env) (content : Bytes) : Prop where
  size : ∀ t, ∀ st ∈ E.fileStat t, st.size = content.length
  reads : ∀ t, ∀ c ∈ fileReads (E.hashReads t), c = content

/-- The record that announces the file. -/
def announcement (P : Primitives) (filepath content : Bytes) : Bytes :=
  metadataBytes (strCopy 255 (basename filepath)) content.length
    (P.generichash (be64 content.length ++ content))

theorem hashLoop_reads
    {reads : List ReadResult} {acc absorbed : Bytes} {v u : View}
    (h : hashLoop E reads acc v = (some absorbed, u)) :
    ∃ c, fileReads reads = some c ∧ absorbed = acc ++ c := by
  induction reads generalizing acc v with
  | nil =>
      rw [hashLoop, Prod.mk.injEq, Option.some.injEq] at h
      exact ⟨[], rfl, h.1.symm.trans (List.append_nil acc).symm⟩
  | cons r reads ih =>
      cases r with
      | data b =>
          cases b with
          | nil =>
              rw [hashLoop, Prod.mk.injEq, Option.some.injEq] at h
              exact ⟨[], rfl, h.1.symm.trans (List.append_nil acc).symm⟩
          | cons x b =>
              rw [hashLoop] at h
              · split at h
                · obtain ⟨c, hc, habs⟩ := ih h
                  refine ⟨(x :: b).take 4096 ++ c, ?_, ?_⟩
                  · rw [fileReads, hc]
                    · rfl
                    · simp
                  · rw [habs, List.append_assoc]
                · cases h
              · simp
      | eintr =>
          exact ih h
      | eagain =>
          cases h
      | err =>
          cases h

theorem hashSource_hash
    {size : Nat} {hash : Block 32} {u : View} (hfile : HoldsFile E content)
    (h : hashSource P E size v = (some hash, u)) :
    hash = P.generichash (be64 size ++ content) := by
  unfold hashSource at h
  split at h
  · cases h
  split at h
  · cases h
  split at h
  · cases h
  rename_i absorbed v3 hloop
  obtain ⟨c, hc, rfl⟩ := hashLoop_reads hloop
  rw [hfile.reads _ c hc] at h
  split at h
  · cases h
  split at h
  · cases h
  · rw [Prod.mk.injEq, Option.some.injEq] at h
    exact h.1.symm

theorem openSource_size
    {fd size : Nat} {u : View} (hfile : HoldsFile E content)
    (h : openSource E v = (some (fd, size), u)) :
    size = content.length := by
  unfold openSource at h
  split at h
  · cases h
  dsimp only at h
  split at h
  · cases h
  rename_i st hst
  have hsize := hfile.size _ st hst
  split at h
  · cases h
  split at h
  · cases h
  split at h
  · cases h
  split at h
  · cases h
  · rw [Prod.mk.injEq, Option.some.injEq, Prod.mk.injEq] at h
    rw [← h.1.2, hsize]
    rfl

/-- The slot is in session with nothing sent under these counters, and sends no file. -/
structure CanStart (v : View) (k : Key) (n : UInt64) (seq : UInt32) : Prop where
  session : ∃ s, v.ps.session = some s ∧ s.tx = { k := k, n := n, hasKey := true }
  live : v.ps.state ≠ .idle
  number : v.ps.txSeq = seq
  txFile : v.ps.txFile.active = false

theorem metadataView_source
    {filepath : Bytes} {u : View} (hfile : HoldsFile E content)
    (h : metadataView P E filepath v = some u) :
    u.ps.txFile.totalSize = content.length ∧
      u.ps.txFile.hash = P.generichash (be64 content.length ++ content) ∧
      u.ps.txFile.sentBytes = 0 ∧ u.ps.txFile.currentChunkSize = 0 := by
  unfold metadataView at h
  split at h
  · cases h
  split at h
  · cases h
  split at h
  · cases h
  split at h
  · cases h
  rename_i hopen
  obtain rfl := openSource_size hfile hopen
  split at h
  · cases h
  rename_i hhash
  obtain rfl := hashSource_hash hfile hhash
  split at h
  · cases h
  rename_i hmalloc
  obtain ⟨-, rfl⟩ := Prod.mk.inj hmalloc
  rw [← Option.some.inj h]
  exact ⟨rfl, rfl, rfl, rfl⟩

/-- The transfer behind its first frame. -/
theorem metadata_sending
    {w : View} {s : NoiseSession} (hlen : metadata.length = 305)
    (hkey : s.tx = { k := k, n := n, hasKey := true }) (hlt : s.tx.n < uint64Max)
    (hses : w.ps.session = some { s with tx := { s.tx with n := s.tx.n + 1 } })
    (hlive : w.ps.state ≠ .idle)
    (htx : w.ps.txFile.active = true ∧ w.ps.txFile.txBuf = [] ∧
      w.ps.txFile.totalSize = content.length ∧ w.ps.txFile.sentBytes = 0 ∧
      w.ps.txFile.currentChunkSize = 0)
    (hseq : w.ps.txSeq = seq + 1)
    (hsent : sentOn i w.sh.log =
      base ++ frameBytes noxMsgFile seq (sealedAt P k n metadata)) :
    Sending P k n seq base metadata content w.ps (sentOn i w.sh.log)
      [(noxMsgFile, metadata)] := by
  obtain ⟨hact, hbuf, hsize, hzero, hcur⟩ := htx
  have hpend : w.ps.txFile.pending = [] := by
    unfold FileTx.pending
    rw [hbuf, List.drop_nil]
  have hformed : WellFormedRecord (noxMsgFile, metadata) := by
    refine ⟨Or.inr rfl, ?_, ?_⟩
    · rintro rfl
      cases hlen
    · rw [hlen]
      decide
  refine ⟨⟨_, hses, by rw [hkey], by rw [hkey], ?_⟩, hlive, hact, fun _ => hbuf, ?_, ?_, ?_, [],
    ?_, ⟨hsize, ?_, ?_, fun _ => hcur⟩, fun c hc => absurd hc List.not_mem_nil⟩
  · change (s.tx.n + 1).toNat = _
    rw [toNat_succ_of_lt hlt, hkey]
    rfl
  · rw [hpend, hsent, sealRecords, sealRecords, encodeFrames, encodeFrames, List.append_nil,
      List.append_nil]
  · rw [hpend, if_pos rfl, hseq, UInt32.add_zero]
    rfl
  · intro r hr
    rw [List.mem_singleton.mp hr]
    exact hformed
  · rfl
  · rw [hzero, hcur]
    rfl
  · rw [hzero, hcur]
    exact Nat.zero_le _

/-- The METADATA frame is on the wire, or the transfer does not start. -/
theorem start_sent
    {filepath : Bytes} (hfile : HoldsFile E content) (h : CanStart v k n seq) :
    SendingOrOver P i k n seq (sentOn i v.sh.log) (announcement P filepath content) content
      (fileTransferStart P E i filepath v) := by
  rcases fileTransferStart_cases (P := P) (E := E) (i := i) filepath v with
    hsame | ⟨-, hstop⟩ | ⟨u, hu, -, hview, heq⟩
  · exact Or.inl ((congrArg TxView.active hsame).trans h.txFile)
  · exact Or.inl (congrArg TxView.active hstop)
  obtain ⟨hsize, hhash, hzero, hcur⟩ := metadataView_source hfile hu
  obtain ⟨s, hs, htx⟩ := h.session
  have hus : u.ps.session = some s := (congrArg TxView.session hview).trans hs
  have hst : u.ps.state = v.ps.state := congrArg TxView.state hview
  have hseq : u.ps.txSeq = seq := (congrArg TxView.txSeq hview).trans h.number
  have hbuf : u.ps.txFile.txBuf = [] := congrArg TxView.txBuf hview
  have hact : u.ps.txFile.active = true := congrArg TxView.active hview
  have hsent : sentOn i u.sh.log = sentOn i v.sh.log := congrArg TxView.sent hview
  have hpend : u.ps.txFile.pending = [] := congrArg TxView.pending hview
  have hlen : (announcement P filepath content).length = 305 := metadataBytes_length _ _ _
  rw [heq]
  unfold sendMetadata
  dsimp only
  rw [hsize, hhash, hus, show metadataBytes (strCopy 255 (basename filepath)) content.length
    (P.generichash (be64 content.length ++ content)) = announcement P filepath content from rfl]
  generalize hmeta : announcement P filepath content = metadata at hlen ⊢
  rcases noiseEncrypt_cases (P := P) (s := s) (by rw [htx])
    (show metadata.length ≤ noxMaxMsgLen by rw [hlen]; decide) with ⟨hlt, henc⟩ | ⟨-, henc⟩
  swap
  · rw [henc]
    exact Or.inl rfl
  rw [henc]
  dsimp only
  generalize hv1 : (u.setPs fun ps => { ps with session := _ }) = v1
  have hseq1 : v1.ps.txSeq = seq := by
    rw [← hv1]
    exact hseq
  have hlog1 : sentOn i v1.sh.log = sentOn i v.sh.log := by
    rw [← hv1]
    exact hsent
  rcases sockWrite_takesAll (E := E) (i := i) (frameBytes noxMsgFile v1.ps.txSeq
    (P.aeadEncrypt s.tx.k (encodeNonce s.tx.n) [] metadata)) v1 with ⟨-, hw⟩ | ⟨-, hpart⟩
  · rw [hw]
    dsimp only
    rw [if_neg (by rw [frameBytes_length]; simp)]
    refine Or.inr ⟨[(noxMsgFile, metadata)], metadata_sending (s := s) hlen htx hlt ?_ ?_ ?_ ?_ ?_⟩
    · rw [← hv1]
      rfl
    · rw [← hv1]
      change u.ps.state ≠ .idle
      rw [hst]
      exact h.live
    · rw [← hv1]
      exact ⟨hact, hbuf, hsize, hzero, hcur⟩
    · change v1.ps.txSeq + 1 = _
      rw [hseq1]
    · change sentOn i (v1.tickOn.emit [.sent i _]).sh.log = _
      rw [emit_log_sent, hseq1]
      change sentOn i v1.sh.log ++ _ = _
      rw [hlog1, htx]
      rfl
  · have hgone : ∀ w : View, (txClear w).ps.txFile.active = false := fun _ => rfl
    generalize sockWrite E i _ v1 = w at hpart ⊢
    obtain ⟨r, v2⟩ := w
    left
    cases r with
    | ok m =>
        have hm := hpart m rfl
        rw [frameBytes_length] at hm
        dsimp only
        rw [if_pos (by omega)]
        exact hgone _
    | eagain => exact hgone _
    | eintr => exact hgone _
    | err => exact hgone _

end Steps

section SenderRun

variable (P : Primitives) (E : Env) (i : Slot)

/--
What a step must not do: send a text while a frame waits in `tx_buf`, or read a chunk that is
taken for a METADATA record.
-/
def StepClean (v : View) : TxOp → Prop
  | .handle => ∀ chunk ∈ diskChunk E v, ¬ TakenForMetadata chunk
  | .message msg => TxFine P E v (.message msg)
  | .queued text => TxFine P E v (.queued text)
  | .start _ => True

/-- What the step reads of the file is what comes next in it. -/
def StepReads (content : Bytes) (v : View) : TxOp → Prop
  | .handle => ∀ chunk ∈ diskChunk E v, chunk <+: content.drop v.ps.txFile.sentBytes
  | _ => True

instance (v : View) (op : TxOp) : Decidable (StepClean P E v op) :=
  match op with
  | .handle => inferInstanceAs (Decidable (∀ _ ∈ _, _))
  | .message msg => inferInstanceAs (Decidable (TxFine P E v (.message msg)))
  | .queued text => inferInstanceAs (Decidable (TxFine P E v (.queued text)))
  | .start _ => isTrue trivial

instance (content : Bytes) (v : View) (op : TxOp) : Decidable (StepReads E content v op) :=
  match op with
  | .handle => inferInstanceAs (Decidable (∀ _ ∈ _, _))
  | .message _ => isTrue trivial
  | .queued _ => isTrue trivial
  | .start _ => isTrue trivial

/-- The steps behind the start of a transfer: texts and the file sender. -/
def Transfer (content : Bytes) (v : View) : List TxOp → Prop
  | [] => True
  | op :: ops => (∀ filepath, op ≠ .start filepath) ∧ StepClean P E v op ∧
      StepReads E content v op ∧ Transfer content (txStep P E i v op) ops

/-- The operation starts a transfer. -/
def TxOp.isStart : TxOp → Bool
  | .start _ => true
  | _ => false

theorem TxOp.isStart_eq_false (op : TxOp) :
    op.isStart = false ↔ ∀ filepath, op ≠ .start filepath := by
  cases op <;> simp [TxOp.isStart]

instance (op : TxOp) : Decidable (∀ filepath, op ≠ .start filepath) :=
  decidable_of_iff (op.isStart = false) op.isStart_eq_false

instance decidableTransfer (content : Bytes) :
    (ops : List TxOp) → (v : View) → Decidable (Transfer P E i content v ops)
  | [], _ => isTrue trivial
  | op :: ops, v =>
      have := decidableTransfer content ops (txStep P E i v op)
      inferInstanceAs (Decidable (_ ∧ _ ∧ _ ∧ _))

/-- The file sender reports that the transfer is complete. -/
def ReportsDone (v : View) : Prop :=
  (fileTransferHandleTx P E i v).sh.ui = v.sh.ui ++ [txDoneLine v.ps.txFile.totalSize]

variable {P E i}
variable {k : Key} {n : UInt64} {seq : UInt32} {base metadata content : Bytes} {v : View}

theorem Transfer.snoc
    {ops : List TxOp} {op : TxOp} (h : Transfer P E i content v (ops ++ [op])) :
    Transfer P E i content v ops ∧ StepClean P E (txRun P E i v ops) op ∧
      StepReads E content (txRun P E i v ops) op := by
  induction ops generalizing v with
  | nil =>
      exact ⟨trivial, h.2.1, h.2.2.1⟩
  | cons op' ops ih =>
      obtain ⟨hop, hclean, hreads, hrest⟩ := h
      obtain ⟨hfirst, hlast⟩ := ih hrest
      exact ⟨⟨hop, hclean, hreads, hfirst⟩, hlast⟩

/-- The step lemma of the sender. -/
theorem sending_step
    {op : TxOp} (hop : ∀ filepath, op ≠ .start filepath) (hclean : StepClean P E v op)
    (hreads : StepReads E content v op)
    (h : SendingOrOver P i k n seq base metadata content v) :
    SendingOrOver P i k n seq base metadata content (txStep P E i v op) := by
  cases op with
  | message msg =>
      exact message_sending h hclean
  | queued text =>
      exact queued_sending h hclean
  | start filepath =>
      exact absurd rfl (hop filepath)
  | handle =>
      have hstep := handle_sent h fun chunk hc => ⟨hreads chunk hc, hclean chunk hc⟩
      cases hstep with
      | goesOn h hui =>
          exact h
      | complete gone h =>
          exact Or.inl gone

/-- The run lemma of the sender. -/
theorem sending_run
    {ops : List TxOp} (hrun : Transfer P E i content v ops)
    (h : SendingOrOver P i k n seq base metadata content v) :
    SendingOrOver P i k n seq base metadata content (txRun P E i v ops) := by
  induction ops generalizing v with
  | nil =>
      exact h
  | cons op ops ih =>
      obtain ⟨hop, hclean, hreads, hrest⟩ := hrun
      exact ih hrest (sending_step hop hclean hreads h)

/--
A transfer that is reported complete is on the wire as a whole: the frames of an announcement
and of chunks that make up the file, with the texts that were sent in between.
-/
theorem transfer_sent
    {filepath : Bytes} {ops : List TxOp} (hfile : HoldsFile E content) (h : CanStart v k n seq)
    (hrun : Transfer P E i content (fileTransferStart P E i filepath v) (ops ++ [.handle]))
    (hdone : ReportsDone P E i (txRun P E i (fileTransferStart P E i filepath v) ops)) :
    ∃ records, Sent P k n seq (sentOn i v.sh.log) (announcement P filepath content) content
      (sentOn i (txRun P E i (fileTransferStart P E i filepath v) (ops ++ [.handle])).sh.log)
      records := by
  obtain ⟨hfirst, hclean, hreads⟩ := hrun.snoc
  have hstep := handle_sent (sending_run hfirst (start_sent hfile h))
    fun chunk hc => ⟨hreads chunk hc, hclean chunk hc⟩
  have hlast : txRun P E i (fileTransferStart P E i filepath v) (ops ++ [.handle]) =
      fileTransferHandleTx P E i (txRun P E i (fileTransferStart P E i filepath v) ops) := by
    rw [txRun, List.foldl_append]
    rfl
  rw [hlast]
  cases hstep with
  | goesOn h hui =>
      exact absurd hdone (hui _)
  | complete gone h =>
      exact ⟨_, h⟩

end SenderRun

end App
end Noxtor
