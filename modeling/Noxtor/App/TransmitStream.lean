import Noxtor.Lib.FrameStream
import Noxtor.App.Lifecycle
import Noxtor.App.Sending
import Noxtor.App.FileTransfer

/-!
# The transmit stream

Four functions write to the socket of a session: the two text senders and the two halves of
the file sender.  They share the sequence number and the counter of the cipher, and the
file sender keeps a frame in `tx_buf` across the turns of the event loop.

`TxFine` excludes the three ways in which a step of the file sender or a text between its
steps breaks the stream; in a run without them the bytes on the wire are numbered frames in
order, and what is missing of the last one is waiting in `tx_buf`.
-/

namespace Noxtor
namespace App

open ByteString Noise FrameStream

/-- The bytes that the socket of slot `i` has taken. -/
def sentOn (i : Slot) (log : List Effect) : Bytes :=
  log.flatMap fun
    | .sent j bytes => if j = i then bytes else []
    | _ => []

@[simp] theorem sentOn_append
    (i : Slot) (l l' : List Effect) :
    sentOn i (l ++ l') = sentOn i l ++ sentOn i l' := by
  simp [sentOn]

/-- A TEXT or FILE frame with sequence number `j` and a ciphertext under nonce `j`. -/
def IsFrame (P : Primitives) (k : Key) (j : Nat) (f : Bytes) : Prop :=
  ∃ type pt, (type = noxMsgText ∨ type = noxMsgFile) ∧
    f = frameBytes type (UInt32.ofNat j) (P.aeadEncrypt k (encodeNonce (UInt64.ofNat j)) [] pt)

/--
Since `base` the socket has taken a concatenation of numbered frames and a proper prefix of
the next one, whose rest is pending in `tx_file`.
-/
def StreamOk (P : Primitives) (i : Slot) (k : Key) (base : Bytes) (v : View) : Prop :=
  ∃ wire m, sentOn i v.sh.log = base ++ wire ∧ OnWire (IsFrame P k) wire v.ps.txFile.pending m

/-- The operations that transmit on a session. -/
inductive TxOp where
  | message (msg : Bytes)
  | queued (text : Bytes)
  | start (filepath : Bytes)
  | handle
deriving DecidableEq

section Runs

variable (P : Primitives) (E : Env) (i : Slot)

/-- One operation on slot `i`. -/
def txStep (v : View) : TxOp → View
  | .message msg => (sendSegmentedMessageTo P E i msg v).2
  | .queued text => (sendQueuedCallback P E i text v).2
  | .start filepath => fileTransferStart P E i filepath v
  | .handle => fileTransferHandleTx P E i v

/-- A run of the four senders. -/
def txRun (v : View) (ops : List TxOp) : View :=
  ops.foldl (txStep P E i) v

/-- The socket takes all of a write of `len` bytes. -/
def takesAll (r : IoResult) (len : Nat) : Bool :=
  match r with
  | .ok n => len ≤ n
  | _ => false

/-- The size of the frame for a plaintext of `len` bytes. -/
def frameSize (len : Nat) : Nat :=
  frameHeaderWireSize + (len + noxMacLen)

/-- The view in which `file_transfer_start` writes the METADATA frame, if it gets there. -/
def metadataView (filepath : Bytes) (v : View) : Option View :=
  if v.ps.fd < 0 ∨ v.ps.session = none then none
  else if v.ps.txFile.active then none
  else if filepath.length = 0 ∨ filepath.length ≥ noxPathMax then none
  else
    match openSource E v with
    | (none, _) => none
    | (some (fileFd, size), v1) =>
        match hashSource P E size v1 with
        | (none, _) => none
        | (some hash, v2) =>
            match sodiumMalloc E (v2.setPs fun ps => { ps with txFile :=
                { active := true, fd := fileFd, filename := strCopy 255 (basename filepath),
                  totalSize := size, hash := hash } }) with
            | (false, _) => none
            | (true, v4) =>
                some (v4.setPs fun ps => { ps with txFile := { ps.txFile with plainBuf := true } })

/--
The step does not break the stream: no text frame goes out while a file frame is waiting in
`tx_buf`, the METADATA frame is taken whole, and the write of a waiting file frame neither
fails nor takes nothing.
-/
def TxFine (v : View) : TxOp → Prop
  | .message msg =>
      v.ps.session ≠ none ∧ 0 ≤ v.ps.fd ∧ E.malloc v.sh.tick = true ∧
        E.malloc (v.sh.tick + 1) = true ∧ msg ≠ [] ∧
        takesAll (E.write (v.sh.tick + 2)) (frameSize (noxNextChunkSize msg 0 msg.length + 1)) →
      v.ps.txFile.pending = []
  | .queued text =>
      v.ps.session ≠ none ∧ 0 ≤ v.ps.fd ∧ E.malloc v.sh.tick = true ∧ text.length + 1 ≤ 4096 ∧
        takesAll (E.write (v.sh.tick + 1)) (frameSize (text.length + 1)) →
      v.ps.txFile.pending = []
  | .start filepath =>
      ∀ u ∈ metadataView P E filepath v, takesAll (E.write u.sh.tick) (frameSize 305)
  | .handle =>
      0 ≤ v.ps.fd ∧ v.ps.txFile.active = true ∧ v.ps.txFile.pending ≠ [] →
      E.write v.sh.tick ≠ .err ∧ E.write v.sh.tick ≠ .ok 0

instance (v : View) (op : TxOp) : Decidable (TxFine P E v op) :=
  match op with
  | .message _ => inferInstanceAs (Decidable (_ → _))
  | .queued _ => inferInstanceAs (Decidable (_ → _))
  | .start _ => inferInstanceAs (Decidable (∀ _ ∈ _, _))
  | .handle => inferInstanceAs (Decidable (_ → _))

/-- Every step of the run is fine. -/
def TxRunFine (v : View) : List TxOp → Prop
  | [] => True
  | op :: ops => TxFine P E v op ∧ TxRunFine (txStep P E i v op) ops

instance decidableTxRunFine : (ops : List TxOp) → (v : View) → Decidable (TxRunFine P E i v ops)
  | [], _ => isTrue trivial
  | op :: ops, v =>
      have := decidableTxRunFine ops (txStep P E i v op)
      inferInstanceAs (Decidable (_ ∧ _))

end Runs

/-- What the stream depends on. -/
structure TxView where
  state : PeerState
  session : Option NoiseSession
  txSeq : UInt32
  active : Bool
  txBuf : Bytes
  pending : Bytes
  sent : Bytes

/-- The part of a view that the stream depends on. -/
def txView (i : Slot) (v : View) : TxView :=
  { state := v.ps.state, session := v.ps.session, txSeq := v.ps.txSeq
    active := v.ps.txFile.active, txBuf := v.ps.txFile.txBuf, pending := v.ps.txFile.pending
    sent := sentOn i v.sh.log }

/--
The stream with `m` complete frames: the sequence number counts them, and the counter of the
cipher is one ahead while a frame is pending.
-/
structure TxInv (P : Primitives) (k : Key) (base : Bytes) (t : TxView) (s : NoiseSession)
    (wire : Bytes) (m : Nat) : Prop where
  session : t.session = some s
  key : s.tx.k = k
  hasKey : s.tx.hasKey = true
  live : t.state ≠ .idle
  rest : t.active = false → t.pending = []
  buf : t.pending = [] → t.txBuf = []
  sent : t.sent = base ++ wire
  frames : OnWire (IsFrame P k) wire t.pending m
  seq : t.txSeq = UInt32.ofNat m
  nonce : s.tx.n.toNat = m + (if t.pending = [] then 0 else 1)

/-- The slot has been torn down, or the stream is in order. -/
def InOrder (P : Primitives) (k : Key) (base : Bytes) (t : TxView) : Prop :=
  t.session = none ∨ ∃ s wire m, TxInv P k base t s wire m

/-- The same, with nothing pending. -/
def Flushed (P : Primitives) (k : Key) (base : Bytes) (t : TxView) : Prop :=
  t.session = none ∨ ∃ s wire m, TxInv P k base t s wire m ∧ t.pending = []

theorem Flushed.inOrder
    {P : Primitives} {k : Key} {base : Bytes} {t : TxView} (h : Flushed P k base t) :
    InOrder P k base t := by
  rcases h with h | ⟨s, wire, m, h, -⟩
  · exact Or.inl h
  · exact Or.inr ⟨s, wire, m, h⟩

section Views

variable {E : Env} {i : Slot}

@[simp] theorem txView_tickOn (v : View) : txView i v.tickOn = txView i v := rfl

@[simp] theorem txView_uiPrintError (t : String) (l : List Bytes) (v : View) :
    txView i (v.uiPrintError t l) = txView i v := rfl

@[simp] theorem txView_uiPrintSystem (t : String) (l : List Bytes) (v : View) :
    txView i (v.uiPrintSystem t l) = txView i v := rfl

@[simp] theorem txView_say (k : UiKind) (t : String) (l : List Bytes) (v : View) :
    txView i (v.say k t l) = txView i v := rfl

@[simp] theorem txView_touchLastActive (v : View) :
    txView i (touchLastActive E v) = txView i v := rfl

@[simp] theorem txView_sodiumMalloc (v : View) :
    txView i (sodiumMalloc E v).2 = txView i v := rfl

end Views

section Frame

variable {P : Primitives} {E : Env} {i : Slot} {k : Key} {base : Bytes}

/-- An exhausted counter stays where it is. -/
theorem TxInv.exhausted
    {t : TxView} {s : NoiseSession} {wire : Bytes} {m : Nat}
    (hinv : TxInv P k base t s wire m) (hge : uint64Max ≤ s.tx.n) :
    TxInv P k base { t with session := some { s with tx := { s.tx with n := uint64Max } } }
      { s with tx := { s.tx with n := uint64Max } } wire m := by
  have hmax : s.tx.n = uint64Max := by
    apply UInt64.toNat_inj.mp
    have h1 := UInt64.le_iff_toNat_le.mp hge
    have h2 := s.tx.n.toNat_lt
    rw [uint64Max_toNat] at h1 ⊢
    omega
  refine ⟨rfl, hinv.key, hinv.hasKey, hinv.live, hinv.rest, hinv.buf, hinv.sent, hinv.frames,
    hinv.seq, ?_⟩
  rw [← hinv.nonce, hmax]

/-- What `noise_encrypt` does to a stream with nothing pending: the next frame, or nothing. -/
theorem encrypt_next
    {t : TxView} {s : NoiseSession} {wire : Bytes} {m : Nat} (pt : Bytes)
    (hinv : TxInv P k base t s wire m) (hpend : t.pending = []) (hpt : pt.length ≤ noxMaxMsgLen) :
    (∃ ct s', noiseEncrypt P t.session (.data pt) true = (some ct, some s') ∧
      s'.tx.k = k ∧ s'.tx.hasKey = true ∧ s'.tx.n.toNat = m + 1 ∧ ct.length = pt.length + 16 ∧
      ∀ type, type = noxMsgText ∨ type = noxMsgFile → IsFrame P k m (frameBytes type t.txSeq ct)) ∨
    (∃ s', noiseEncrypt P t.session (.data pt) true = (none, some s') ∧
      TxInv P k base { t with session := some s' } s' wire m) := by
  have hn : s.tx.n.toNat = m := by
    rw [hinv.nonce, if_pos hpend, Nat.add_zero]
  rw [hinv.session]
  rcases noiseEncrypt_cases (P := P) hinv.hasKey hpt with ⟨hlt, heq⟩ | ⟨hge, heq⟩
  · left
    refine ⟨_, _, heq, hinv.key, hinv.hasKey, ?_, P.aeadEncrypt_length _ _ _ _, ?_⟩
    · show (s.tx.n + 1).toNat = m + 1
      rw [toNat_succ_of_lt hlt, hn]
    · intro type htype
      refine ⟨type, pt, htype, ?_⟩
      rw [hinv.seq, hinv.key, ← hn, UInt64.ofNat_toNat]
  · exact Or.inr ⟨_, heq, hinv.exhausted hge⟩

/-- The counters after a frame that was written at once. -/
theorem txInv_whole
    {t : TxView} {s s' : NoiseSession} {wire f : Bytes} {m : Nat} {active : Bool}
    (hinv : TxInv P k base t s wire m) (hpend : t.pending = []) (hkey : s'.tx.k = k)
    (hhas : s'.tx.hasKey = true) (hn : s'.tx.n.toNat = m + 1) (hf : IsFrame P k m f) :
    TxInv P k base { t with
      session := some s', txSeq := t.txSeq + 1, sent := t.sent ++ f, active := active } s'
      (wire ++ f) (m + 1) := by
  refine ⟨rfl, hkey, hhas, hinv.live, fun _ => hpend, hinv.buf, ?_, ?_, ?_, ?_⟩
  · show t.sent ++ f = _
    rw [hinv.sent, List.append_assoc]
  · show OnWire _ _ t.pending _
    have hframes := hinv.frames
    rw [hpend] at hframes ⊢
    exact hframes.whole hf
  · show t.txSeq + 1 = _
    rw [hinv.seq, UInt32.ofNat_add]
    rfl
  · show _ = _ + (if t.pending = [] then 0 else 1)
    rw [if_pos hpend, hn]

theorem sentOn_sent
    (bytes : Bytes) :
    sentOn i [.sent i bytes] = bytes := by
  simp [sentOn]

theorem emit_log_sent
    (bytes : Bytes) (v : View) :
    sentOn i (v.emit [.sent i bytes]).sh.log = sentOn i v.sh.log ++ bytes := by
  rw [View.emit_log, sentOn_append, sentOn_sent]

/-- What is seen of a write: all of it, or not all of it. -/
theorem sockWrite_takesAll
    (data : Bytes) (v : View) :
    (takesAll (E.write v.sh.tick) data.length = true ∧
      sockWrite E i data v = (.ok data.length, v.tickOn.emit [.sent i data])) ∨
    (takesAll (E.write v.sh.tick) data.length = false ∧
      (∀ n, (sockWrite E i data v).1 = .ok n → n < data.length)) := by
  unfold sockWrite takesAll
  cases E.write v.sh.tick with
  | ok n =>
      by_cases hn : data.length ≤ n
      · left
        simp [hn, List.take_of_length_le hn]
      · right
        simp only [hn, decide_false, true_and]
        intro m hm
        cases hm
        omega
  | eagain =>
      right
      simp
  | eintr =>
      right
      simp
  | err =>
      right
      simp

/-- A disconnect of a slot in use takes the session away. -/
theorem disconnected_session
    {v : View} (h : v.ps.state ≠ .idle) :
    (smDispatch P E i .peerDisconnected v).2.ps.session = none := by
  rw [smDispatch_peerDisconnected, if_neg h]
  rfl

/-- A text that the socket does not take whole tears the slot down. -/
theorem sendText_refused
    {v : View} {ct : Bytes} {session : Option NoiseSession} {pt : Bytes}
    (henc : noiseEncrypt P v.ps.session (.data pt) true = (some ct, session))
    (hlive : v.ps.state ≠ .idle)
    (hwrite : takesAll (E.write v.sh.tick) (frameHeaderWireSize + ct.length) = false) :
    (∃ err, (sendText P E i pt v).1 = .error err) ∧
      (sendText P E i pt v).2.ps.session = none := by
  unfold sendText
  rw [henc]
  dsimp only
  generalize hv1 : (v.setPs fun ps => { ps with session := session }) = v1
  have hst1 : v1.ps.state = v.ps.state := by
    rw [← hv1]
    rfl
  have htick : v1.sh.tick = v.sh.tick := by
    rw [← hv1]
    rfl
  have hall := sockWrite_takesAll (E := E) (i := i) (frameBytes noxMsgText v1.ps.txSeq ct) v1
  have hps := sockWrite_ps E i (frameBytes noxMsgText v1.ps.txSeq ct) v1
  rw [frameBytes_length, htick, hwrite] at hall
  generalize sockWrite E i (frameBytes noxMsgText v1.ps.txSeq ct) v1 = w at hall hps ⊢
  obtain ⟨r, v2⟩ := w
  have hlive2 : v2.ps.state ≠ .idle := by
    rw [show v2.ps = v1.ps from hps, hst1]
    exact hlive
  rcases hall with ⟨h, -⟩ | ⟨-, hn⟩
  · cases h
  cases r with
  | ok n =>
      have hlt := hn n rfl
      dsimp only
      rw [if_pos (by omega)]
      exact ⟨⟨_, rfl⟩, disconnected_session hlive2⟩
  | eagain =>
      exact ⟨⟨_, rfl⟩, disconnected_session hlive2⟩
  | eintr =>
      exact ⟨⟨_, rfl⟩, disconnected_session hlive2⟩
  | err =>
      exact ⟨⟨_, rfl⟩, disconnected_session hlive2⟩

/-- A text that the socket takes whole is one frame. -/
theorem sendText_taken
    {v : View} {ct : Bytes} {session : Option NoiseSession} {pt : Bytes}
    (henc : noiseEncrypt P v.ps.session (.data pt) true = (some ct, session))
    (hwrite : takesAll (E.write v.sh.tick) (frameHeaderWireSize + ct.length) = true) :
    txView i (sendText P E i pt v).2 = { txView i v with
      session := session, txSeq := v.ps.txSeq + 1
      sent := sentOn i v.sh.log ++ frameBytes noxMsgText v.ps.txSeq ct } := by
  unfold sendText
  rw [henc]
  dsimp only
  rw [show (v.setPs fun ps => { ps with session := session }).ps.txSeq = v.ps.txSeq from rfl]
  rcases sockWrite_takesAll (E := E) (i := i) (frameBytes noxMsgText v.ps.txSeq ct)
    (v.setPs fun ps => { ps with session := session }) with ⟨-, hw⟩ | ⟨hno, -⟩
  · rw [hw, frameBytes_length]
    simp [txView, View.emit, View.tickOn, touchLastActive, sentOn_sent]
  · rw [frameBytes_length, View.setPs_sh, hwrite] at hno
    cases hno

/-- A text that cannot be encrypted is not sent. -/
theorem sendText_exhausted
    {v : View} {session : Option NoiseSession} {pt : Bytes}
    (henc : noiseEncrypt P v.ps.session (.data pt) true = (none, session)) :
    (∃ err, (sendText P E i pt v).1 = .error err) ∧
      txView i (sendText P E i pt v).2 = { txView i v with session := session } := by
  unfold sendText
  rw [henc]
  exact ⟨⟨_, rfl⟩, rfl⟩

/-- A text on a stream with nothing pending. -/
theorem sendText_flushed
    {pt : Bytes} {v : View} (hpt : pt.length ≤ noxMaxMsgLen)
    (h : Flushed P k base (txView i v)) :
    Flushed P k base (txView i (sendText P E i pt v).2) := by
  rcases h with hnone | ⟨s, wire, m, hinv, hpend⟩
  · left
    have henc : noiseEncrypt P v.ps.session (.data pt) true = (none, none) := by
      rw [show v.ps.session = none from hnone]
      rfl
    rw [(sendText_exhausted henc).2]
  rcases encrypt_next pt hinv hpend hpt with
    ⟨ct, s', henc, hkey, hhas, hn, -, hframe⟩ | ⟨s', henc, hinv'⟩
  · cases hall : takesAll (E.write v.sh.tick) (frameHeaderWireSize + ct.length) with
    | false =>
        exact Or.inl (sendText_refused henc hinv.live hall).2
    | true =>
        right
        rw [sendText_taken henc hall]
        exact ⟨s', _, m + 1,
          txInv_whole hinv hpend hkey hhas hn (hframe noxMsgText (Or.inl rfl)), hpend⟩
  · right
    rw [(sendText_exhausted henc).2]
    exact ⟨s', wire, m, hinv', hpend⟩

/-- A text that is refused while a frame is pending tears the slot down or does nothing. -/
theorem sendText_blocked
    (pt : Bytes) {v : View} (hpt : pt.length ≤ noxMaxMsgLen)
    (h : InOrder P k base (txView i v))
    (hwrite : takesAll (E.write v.sh.tick) (frameSize pt.length) = false) :
    (∃ err, (sendText P E i pt v).1 = .error err) ∧
      InOrder P k base (txView i (sendText P E i pt v).2) := by
  rcases h with hnone | ⟨s, wire, m, hinv⟩
  · have henc : noiseEncrypt P v.ps.session (.data pt) true = (none, none) := by
      rw [show v.ps.session = none from hnone]
      rfl
    obtain ⟨herr, heq⟩ := sendText_exhausted (E := E) (i := i) henc
    exact ⟨herr, Or.inl (by rw [heq])⟩
  have hs : v.ps.session = some s := hinv.session
  rcases noiseEncrypt_cases (P := P) hinv.hasKey hpt with ⟨-, heq⟩ | ⟨hge, heq⟩
  · rw [← hs] at heq
    have hlen := P.aeadEncrypt_length s.tx.k (encodeNonce s.tx.n) [] pt
    obtain ⟨herr, hgone⟩ := sendText_refused (i := i) heq hinv.live
      (by rw [hlen]; exact hwrite)
    exact ⟨herr, Or.inl hgone⟩
  · rw [← hs] at heq
    obtain ⟨herr, hview⟩ := sendText_exhausted (E := E) (i := i) heq
    rw [hview]
    exact ⟨herr, Or.inr ⟨_, wire, m, hinv.exhausted hge⟩⟩

end Frame

section Texts

variable {P : Primitives} {E : Env} {i : Slot} {k : Key} {base : Bytes}

theorem segmentLoop_flushed
    (msg : Bytes) (fuel offset : Nat) {v : View} (h : Flushed P k base (txView i v)) :
    Flushed P k base (txView i (segmentLoop P E i msg fuel offset v).2) := by
  induction fuel generalizing offset v with
  | zero =>
      exact h
  | succ fuel ih =>
      unfold segmentLoop
      split
      swap
      · exact h
      rename_i hoff
      have hb := noxNextChunkSize_bounds msg hoff
      have hlen : ((msg.drop offset).take (noxNextChunkSize msg offset msg.length) ++ [0]).length ≤
          noxMaxMsgLen := by
        rw [List.length_append, List.length_take, List.length_singleton]
        show _ ≤ 4096
        omega
      have h1 := sendText_flushed (E := E) hlen h
      dsimp only
      generalize sendText P E i
        ((msg.drop offset).take (noxNextChunkSize msg offset msg.length) ++ [0]) v = r at h1 ⊢
      obtain ⟨_ | _, v1⟩ := r
      · exact h1
      · exact ih _ h1

theorem message_inOrder
    {msg : Bytes} {v : View} (h : InOrder P k base (txView i v))
    (hfine : TxFine P E v (.message msg)) :
    InOrder P k base (txView i (sendSegmentedMessageTo P E i msg v).2) := by
  unfold sendSegmentedMessageTo
  split
  · exact h
  rename_i hguard
  rw [not_or, not_lt] at hguard
  dsimp only
  split
  · exact h
  rename_i hmalloc
  have hm : E.malloc v.sh.tick = true ∧ E.malloc (v.sh.tick + 1) = true := by
    simpa [sodiumMalloc, View.tickOn] using hmalloc
  have hview : txView i (sodiumMalloc E (sodiumMalloc E v).2).2 = txView i v := by
    simp
  have htick : (sodiumMalloc E (sodiumMalloc E v).2).2.sh.tick = v.sh.tick + 2 := rfl
  generalize (sodiumMalloc E (sodiumMalloc E v).2).2 = v1 at hview htick ⊢
  by_cases hpend : v.ps.txFile.pending = []
  · apply Flushed.inOrder
    apply segmentLoop_flushed
    rw [hview]
    rcases h with hnone | ⟨s, wire, m, hinv⟩
    · exact Or.inl hnone
    · exact Or.inr ⟨s, wire, m, hinv, hpend⟩
  -- a frame is pending: the first text frame is refused, or there is none
  rw [← hview] at h
  cases hlen : msg.length with
  | zero =>
      exact h
  | succ fuel =>
      have hne : msg ≠ [] := by
        rintro rfl
        cases hlen
      have hno : takesAll (E.write (v.sh.tick + 2))
          (frameSize (noxNextChunkSize msg 0 msg.length + 1)) = false := by
        by_contra hyes
        rw [Bool.not_eq_false] at hyes
        exact hpend (hfine ⟨hguard.1, hguard.2, hm.1, hm.2, hne, hyes⟩)
      have hb := noxNextChunkSize_bounds msg (show 0 < msg.length by omega)
      have hchunk : ((msg.drop 0).take (noxNextChunkSize msg 0 msg.length) ++ [0]).length =
          noxNextChunkSize msg 0 msg.length + 1 := by
        rw [List.length_append, List.length_take, List.drop_zero, List.length_singleton]
        omega
      unfold segmentLoop
      rw [if_pos (by omega)]
      obtain ⟨⟨err, herr⟩, hin⟩ := sendText_blocked (E := E)
        ((msg.drop 0).take (noxNextChunkSize msg 0 msg.length) ++ [0])
        (by rw [hchunk]; show _ ≤ 4096; omega) h (by rw [hchunk, htick]; exact hno)
      dsimp only
      generalize sendText P E i
        ((msg.drop 0).take (noxNextChunkSize msg 0 msg.length) ++ [0]) v1 = r at herr hin ⊢
      obtain ⟨r1, v2⟩ := r
      subst herr
      exact hin

theorem queued_inOrder
    {text : Bytes} {v : View} (h : InOrder P k base (txView i v))
    (hfine : TxFine P E v (.queued text)) :
    InOrder P k base (txView i (sendQueuedCallback P E i text v).2) := by
  unfold sendQueuedCallback
  split
  · exact h
  rename_i hguard
  rw [not_or, not_lt] at hguard
  split
  · exact h
  rename_i hlen
  rw [not_lt] at hlen
  unfold sodiumMalloc
  cases hm : E.malloc v.sh.tick with
  | false =>
      exact h
  | true =>
      dsimp only
      have hpt : (text ++ [0]).length = text.length + 1 := by
        simp
      by_cases hpend : v.ps.txFile.pending = []
      · apply Flushed.inOrder
        apply sendText_flushed
        · rw [hpt]
          exact hlen
        · rw [txView_tickOn]
          rcases h with hnone | ⟨s, wire, m, hinv⟩
          · exact Or.inl hnone
          · exact Or.inr ⟨s, wire, m, hinv, hpend⟩
      · refine (sendText_blocked _ (v := v.tickOn) (by rw [hpt]; exact hlen) h ?_).2
        by_contra hyes
        rw [Bool.not_eq_false, hpt] at hyes
        exact hpend (hfine ⟨hguard.2, hguard.1, hm, hlen, hyes⟩)

end Texts

section Start

variable {P : Primitives} {E : Env} {i : Slot} {k : Key} {base : Bytes}

theorem txView_openSource
    (v : View) :
    txView i (openSource E v).2 = txView i v := by
  unfold openSource
  cases E.openFile v.sh.tick with
  | none =>
      rfl
  | some fileFd =>
      dsimp only
      cases E.fileStat v.tickOn.sh.tick with
      | none =>
          rfl
      | some st =>
          dsimp only
          split
          · simp
          split
          · simp
          split
          · simp
          split <;> simp

theorem txView_hashCall
    (message : String) (v : View) :
    txView i (hashCall E message v).2 = txView i v := by
  unfold hashCall
  split <;> rfl

theorem txView_hashLoop
    (reads : List ReadResult) (acc : Bytes) (v : View) :
    txView i (hashLoop E reads acc v).2 = txView i v := by
  induction reads generalizing acc v with
  | nil =>
      rfl
  | cons r reads ih =>
      cases r with
      | data b =>
          cases b with
          | nil =>
              rfl
          | cons c b =>
              have h := txView_hashCall (E := E) (i := i) "Hash güncellenemedi" v
              unfold hashLoop
              generalize hashCall E "Hash güncellenemedi" v = call at h ⊢
              obtain ⟨_ | _, v1⟩ := call
              · exact h
              · exact (ih _ v1).trans h
      | eintr =>
          exact ih acc v
      | eagain =>
          rfl
      | err =>
          rfl

theorem txView_hashSource
    (size : Nat) (v : View) :
    txView i (hashSource P E size v).2 = txView i v := by
  unfold hashSource
  have h1 := txView_hashCall (E := E) (i := i) "Hash state başlatılamadı" v
  generalize hashCall E "Hash state başlatılamadı" v = c1 at h1 ⊢
  obtain ⟨_ | _, v1⟩ := c1
  · exact h1
  dsimp only at h1 ⊢
  have h2 := txView_hashCall (E := E) (i := i) "Hash güncellenemedi" v1
  generalize hashCall E "Hash güncellenemedi" v1 = c2 at h2 ⊢
  obtain ⟨_ | _, v2⟩ := c2
  · exact h2.trans h1
  dsimp only at h2 ⊢
  have h3 := txView_hashLoop (E := E) (i := i) (E.hashReads v2.sh.tick) (be64 size) v2.tickOn
  generalize hashLoop E (E.hashReads v2.sh.tick) (be64 size) v2.tickOn = c3 at h3 ⊢
  rw [txView_tickOn, h2, h1] at h3
  obtain ⟨_ | absorbed, v3⟩ := c3
  · exact h3
  dsimp only at h3 ⊢
  have h4 := txView_hashCall (E := E) (i := i) "Hash tamamlanamadı" v3
  generalize hashCall E "Hash tamamlanamadı" v3 = c4 at h4 ⊢
  rw [h3] at h4
  obtain ⟨_ | _, v4⟩ := c4
  · exact h4
  dsimp only
  split
  · exact h4
  · exact h4

/-- `file_transfer_start` stops before the METADATA frame, or writes it. -/
theorem fileTransferStart_cases
    (filepath : Bytes) (v : View) :
    txView i (fileTransferStart P E i filepath v) = txView i v ∨
    (v.ps.txFile.active = false ∧ txView i (fileTransferStart P E i filepath v) =
      { txView i v with active := false, txBuf := [], pending := [] }) ∨
    (∃ u, metadataView P E filepath v = some u ∧ v.ps.txFile.active = false ∧
      txView i u = { txView i v with active := true, txBuf := [], pending := [] } ∧
      fileTransferStart P E i filepath v =
        sendMetadata P E i (strCopy 255 (basename filepath)) u) := by
  unfold fileTransferStart metadataView
  split
  · exact Or.inl rfl
  split
  · exact Or.inl rfl
  rename_i hact
  rw [Bool.not_eq_true] at hact
  split
  · exact Or.inl rfl
  have h1 := txView_openSource (E := E) (i := i) v
  generalize openSource E v = c1 at h1 ⊢
  obtain ⟨_ | ⟨fileFd, size⟩, v1⟩ := c1
  · exact Or.inl h1
  dsimp only at h1 ⊢
  have h2 := txView_hashSource (P := P) (E := E) (i := i) size v1
  generalize hashSource P E size v1 = c2 at h2 ⊢
  rw [h1] at h2
  obtain ⟨_ | hash, v2⟩ := c2
  · exact Or.inl h2
  dsimp only at h2 ⊢
  generalize hv3 : View.setPs _ v2 = v3
  have h3 : txView i v3 = { txView i v with active := true, txBuf := [], pending := [] } := by
    rw [← hv3, ← h2]
    rfl
  right
  unfold sodiumMalloc
  cases E.malloc v3.sh.tick with
  | false =>
      left
      refine ⟨hact, ?_⟩
      have hclear : txView i (txClear (v3.tickOn.uiPrintError "Bellek tahsisi başarısız" [])) =
          { txView i v3 with active := false, txBuf := [], pending := [] } := rfl
      dsimp only
      rw [hclear, h3]
  | true =>
      right
      exact ⟨_, rfl, hact, h3, rfl⟩

/-- A stream with nothing pending does not depend on the rest of `tx_file`. -/
theorem TxInv.cleared
    {t : TxView} {s : NoiseSession} {wire : Bytes} {m : Nat}
    (hinv : TxInv P k base t s wire m) (hpend : t.pending = []) (active : Bool) :
    TxInv P k base { t with active := active, txBuf := [], pending := [] } s wire m := by
  have hframes := hinv.frames
  have hnonce := hinv.nonce
  rw [hpend] at hframes hnonce
  exact ⟨hinv.session, hinv.key, hinv.hasKey, hinv.live, fun _ => rfl, fun _ => rfl, hinv.sent,
    hframes, hinv.seq, hnonce⟩

/-- The METADATA frame is taken whole. -/
theorem sendMetadata_taken
    {u : View} {name ct : Bytes} {session : Option NoiseSession}
    (henc : noiseEncrypt P u.ps.session
      (.data (metadataBytes name u.ps.txFile.totalSize u.ps.txFile.hash)) true = (some ct, session))
    (hwrite : takesAll (E.write u.sh.tick) (frameHeaderWireSize + ct.length) = true) :
    txView i (sendMetadata P E i name u) = { txView i u with
      session := session, txSeq := u.ps.txSeq + 1
      sent := sentOn i u.sh.log ++ frameBytes noxMsgFile u.ps.txSeq ct } := by
  unfold sendMetadata
  dsimp only
  rw [henc]
  dsimp only
  rw [show (u.setPs fun ps => { ps with session := session }).ps.txSeq = u.ps.txSeq from rfl]
  rcases sockWrite_takesAll (E := E) (i := i) (frameBytes noxMsgFile u.ps.txSeq ct)
    (u.setPs fun ps => { ps with session := session }) with ⟨-, hw⟩ | ⟨hno, -⟩
  · rw [hw, frameBytes_length]
    simp [txView, View.emit, View.tickOn, View.uiPrintSystem, View.say, sentOn_sent]
  · rw [frameBytes_length, View.setPs_sh, hwrite] at hno
    cases hno

/-- The METADATA record cannot be encrypted. -/
theorem sendMetadata_exhausted
    {u : View} {name : Bytes} {session : Option NoiseSession}
    (henc : noiseEncrypt P u.ps.session
      (.data (metadataBytes name u.ps.txFile.totalSize u.ps.txFile.hash)) true = (none, session)) :
    txView i (sendMetadata P E i name u) =
      { txView i u with session := session, active := false, txBuf := [], pending := [] } := by
  unfold sendMetadata
  dsimp only
  rw [henc]
  rfl

theorem start_inOrder
    {filepath : Bytes} {v : View} (h : InOrder P k base (txView i v))
    (hfine : TxFine P E v (.start filepath)) :
    InOrder P k base (txView i (fileTransferStart P E i filepath v)) := by
  rcases fileTransferStart_cases (P := P) (E := E) (i := i) filepath v with
    hsame | ⟨hact, hstop⟩ | ⟨u, hu, hact, hview, heq⟩
  · rw [hsame]
    exact h
  · rw [hstop]
    rcases h with hnone | ⟨s, wire, m, hinv⟩
    · exact Or.inl hnone
    · exact Or.inr ⟨s, wire, m, hinv.cleared (hinv.rest hact) false⟩
  have hall := hfine u hu
  rw [heq]
  generalize strCopy 255 (basename filepath) = name
  have hlen : (metadataBytes name u.ps.txFile.totalSize u.ps.txFile.hash).length = 305 :=
    metadataBytes_length _ _ _
  rcases h with hnone | ⟨s, wire, m, hinv⟩
  · left
    have hnone' : u.ps.session = none := by
      rw [show u.ps.session = (txView i u).session from rfl, hview]
      exact hnone
    rw [sendMetadata_exhausted (by rw [hnone']; rfl)]
  have hinv0 : TxInv P k base (txView i u) s wire m := by
    rw [hview]
    exact hinv.cleared (hinv.rest hact) true
  have hpend : (txView i u).pending = [] := by
    rw [hview]
  right
  rcases encrypt_next (metadataBytes name u.ps.txFile.totalSize u.ps.txFile.hash) hinv0 hpend
      (by rw [hlen]; decide) with
    ⟨ct, s', henc, hkey, hhas, hn, hct, hframe⟩ | ⟨s', henc, hinv'⟩
  · rw [sendMetadata_taken henc (by rw [hct, hlen]; exact hall)]
    exact ⟨s', _, m + 1,
      txInv_whole hinv0 hpend hkey hhas hn (hframe noxMsgFile (Or.inr rfl))⟩
  · rw [sendMetadata_exhausted henc]
    exact ⟨s', wire, m, hinv'.cleared hpend false⟩

end Start

section Handle

variable {P : Primitives} {E : Env} {i : Slot} {k : Key} {base : Bytes}

/-- The encrypted chunk is pending, or the transfer is given up before anything is encrypted. -/
theorem txBuffer_inOrder
    {chunk : Bytes} {v : View} (hlen : chunk.length ≤ noxMaxMsgLen)
    (hact : v.ps.txFile.active = true) (hpend : v.ps.txFile.pending = [])
    (h : InOrder P k base (txView i v)) :
    InOrder P k base (txView i (txBuffer P chunk v)) := by
  have hsize : ¬ frameHeaderWireSize + (chunk.length + noxMacLen) > txBufCapacity := by
    have : chunk.length ≤ 4096 := hlen
    show ¬ 13 + (chunk.length + 16) > 13 + 4096 + 16
    omega
  unfold txBuffer
  dsimp only
  rw [if_neg hsize]
  rw [show (v.setPs fun ps => { ps with txFile := { ps.txFile with
    currentChunkSize := chunk.length } }).ps.session = v.ps.session from rfl]
  rcases h with hnone | ⟨s, wire, m, hinv⟩
  · rw [show v.ps.session = none from hnone]
    exact Or.inl rfl
  right
  rcases encrypt_next _ hinv hpend hlen with
    ⟨ct, s', henc, hkey, hhas, hn, hct, hframe⟩ | ⟨s', henc, hinv'⟩
  · have hne : frameBytes noxMsgFile v.ps.txSeq ct ≠ [] := by
      intro hnil
      have hl := frameBytes_length noxMsgFile v.ps.txSeq ct
      rw [hnil] at hl
      simp only [List.length_nil, frameHeaderWireSize] at hl
      omega
    rw [show noiseEncrypt P v.ps.session (.data chunk) true = (some ct, some s') from henc]
    dsimp only
    rw [if_pos (by omega)]
    refine ⟨s', wire, m, ?_⟩
    have hframes := hinv.frames
    rw [show (txView i v).pending = [] from hpend] at hframes
    refine ⟨rfl, hkey, hhas, hinv.live, ?_, fun h => absurd h hne, hinv.sent,
      hframes.buffer (hframe noxMsgFile (Or.inr rfl)) hne, hinv.seq, ?_⟩
    · intro h
      have h' : v.ps.txFile.active = false := h
      rw [hact] at h'
      cases h'
    · show _ = _ + (if frameBytes noxMsgFile v.ps.txSeq ct = [] then 0 else 1)
      rw [if_neg hne, hn]
  · rw [show noiseEncrypt P v.ps.session (.data chunk) true = (none, some s') from henc]
    exact ⟨s', wire, m, hinv'.cleared hpend false⟩

/-- A frame that has left is counted, and nothing is pending. -/
theorem txView_txFrameDone
    (v : View) :
    ∃ active, txView i (txFrameDone v) = { txView i v with
      txSeq := v.ps.txSeq + 1, active := active, txBuf := [], pending := [] } := by
  unfold txFrameDone
  dsimp only
  split
  · exact ⟨false, rfl⟩
  · exact ⟨v.ps.txFile.active, rfl⟩

/-- The socket takes `c` more bytes of the pending frame. -/
theorem txAdvance_inOrder
    {c : Nat} {v v1 : View} {s : NoiseSession} {wire : Bytes} {m : Nat}
    (hinv : TxInv P k base (txView i v) s wire m) (hact : v.ps.txFile.active = true)
    (hpend : v.ps.txFile.pending ≠ []) (hc : c ≤ v.ps.txFile.pending.length)
    (hps : v1.ps = v.ps)
    (hsent : sentOn i v1.sh.log = sentOn i v.sh.log ++ v.ps.txFile.pending.take c) :
    InOrder P k base (txView i (txAdvance E c v1)) := by
  obtain ⟨ps1, sh1⟩ := v1
  dsimp only at hps hsent
  subst hps
  have hlen : v.ps.txFile.pending.length = v.ps.txFile.txLen - v.ps.txFile.txOffset :=
    List.length_drop
  have hpos : 0 < v.ps.txFile.pending.length := List.length_pos_iff.mpr hpend
  have hnonce : s.tx.n.toNat = m + 1 := by
    rw [hinv.nonce, if_neg (by exact hpend)]
  have hbytes : sentOn i sh1.log = base ++ (wire ++ v.ps.txFile.pending.take c) := by
    rw [hsent, ← List.append_assoc, ← hinv.sent]
    rfl
  right
  unfold txAdvance
  dsimp only
  split
  · -- the frame is complete
    rename_i hdone
    have hdone' : v.ps.txFile.txOffset + c = v.ps.txFile.txLen := hdone
    have hall : v.ps.txFile.pending.take c = v.ps.txFile.pending := by
      apply List.take_of_length_le
      omega
    rw [hall] at hbytes
    have hseq : v.ps.txSeq + 1 = UInt32.ofNat (m + 1) := by
      rw [show v.ps.txSeq = UInt32.ofNat m from hinv.seq, UInt32.ofNat_add]
      rfl
    obtain ⟨active, hview⟩ := txView_txFrameDone (i := i) (touchLastActive E (View.setPs (fun ps =>
      { ps with txFile := { ps.txFile with txOffset := ps.txFile.txOffset + c } }) ⟨v.ps, sh1⟩))
    rw [hview]
    exact ⟨s, wire ++ v.ps.txFile.pending, m + 1, hinv.session, hinv.key, hinv.hasKey, hinv.live,
      fun _ => rfl, fun _ => rfl, hbytes, hinv.frames.finish hpend, hseq, hnonce⟩
  · rename_i hdone
    have hdone' : v.ps.txFile.txOffset + c ≠ v.ps.txFile.txLen := hdone
    have hlt : c < v.ps.txFile.pending.length := by
      omega
    have hleft : v.ps.txFile.txBuf.drop (v.ps.txFile.txOffset + c) ≠ [] := by
      rw [Ne, List.drop_eq_nil_iff]
      show ¬ v.ps.txFile.txLen ≤ _
      omega
    have hframes := hinv.frames.advance (n := c) hlt
    rw [show (txView i v).pending = v.ps.txFile.txBuf.drop v.ps.txFile.txOffset from rfl,
      List.drop_drop] at hframes
    refine ⟨s, wire ++ v.ps.txFile.pending.take c, m, hinv.session, hinv.key, hinv.hasKey,
      hinv.live, ?_, fun h => absurd h hleft, hbytes, hframes, hinv.seq, ?_⟩
    · intro h
      have h' : v.ps.txFile.active = false := h
      rw [hact] at h'
      cases h'
    · rw [if_neg (by exact hleft), hnonce]

theorem txFlush_inOrder
    {v : View} {s : NoiseSession} {wire : Bytes} {m : Nat}
    (hinv : TxInv P k base (txView i v) s wire m) (hact : v.ps.txFile.active = true)
    (hpend : v.ps.txFile.pending ≠ [])
    (hwrite : E.write v.sh.tick ≠ .err ∧ E.write v.sh.tick ≠ .ok 0) :
    InOrder P k base (txView i (txFlush E i v)) := by
  have hpos : 0 < v.ps.txFile.pending.length := List.length_pos_iff.mpr hpend
  unfold txFlush sockWrite
  cases hw : E.write v.sh.tick with
  | ok n =>
      have hn : n ≠ 0 := by
        rintro rfl
        exact hwrite.2 hw
      dsimp only
      rw [if_neg (by omega)]
      refine txAdvance_inOrder hinv hact hpend (Nat.min_le_right _ _) rfl ?_
      rw [emit_log_sent, List.take_eq_take_min]
      rfl
  | eagain =>
      exact Or.inr ⟨s, wire, m, hinv⟩
  | eintr =>
      exact Or.inr ⟨s, wire, m, hinv⟩
  | err =>
      exact absurd hw hwrite.1

/-- Writing the pending frame does not touch the session. -/
theorem txFlush_session
    (v : View) :
    (txFlush E i v).ps.session = v.ps.session := by
  have hps := sockWrite_ps E i v.ps.txFile.pending v
  unfold txFlush
  generalize sockWrite E i v.ps.txFile.pending v = w at hps ⊢
  obtain ⟨r, v1⟩ := w
  rw [← show v1.ps = v.ps from hps]
  cases r with
  | ok n =>
      dsimp only
      split
      · rfl
      · unfold txAdvance txFrameDone
        dsimp only
        split
        · split <;> rfl
        · rfl
  | eagain =>
      rfl
  | eintr =>
      rfl
  | err =>
      rfl

theorem handle_inOrder
    {v : View} (h : InOrder P k base (txView i v)) (hfine : TxFine P E v .handle) :
    InOrder P k base (txView i (fileTransferHandleTx P E i v)) := by
  unfold fileTransferHandleTx
  split
  · exact h
  rename_i hguard
  rw [not_or, not_lt, Bool.not_eq_false] at hguard
  obtain ⟨hfd, hact⟩ := hguard
  split
  · rename_i hbuf
    rcases h with hnone | ⟨s, wire, m, hinv⟩
    · exact Or.inl ((txFlush_session v).trans hnone)
    · have hpend : v.ps.txFile.pending ≠ [] := by
        intro hnil
        have hb : v.ps.txFile.txBuf = [] := hinv.buf hnil
        rw [FileTx.txLen, hb] at hbuf
        exact absurd hbuf (Nat.lt_irrefl 0)
      exact txFlush_inOrder hinv hact hpend (hfine ⟨hfd, hact, hpend⟩)
  · rename_i hbuf
    have hpend : v.ps.txFile.pending = [] := by
      have hb : v.ps.txFile.txBuf = [] := by
        apply List.eq_nil_of_length_eq_zero
        exact Nat.eq_zero_of_not_pos hbuf
      unfold FileTx.pending
      rw [hb, List.drop_nil]
    have hclear : InOrder P k base { txView i v with active := false, txBuf := [], pending := [] } := by
      rcases h with hnone | ⟨s, wire, m, hinv⟩
      · exact Or.inl hnone
      · exact Or.inr ⟨s, wire, m, hinv.cleared hpend false⟩
    unfold txNext
    dsimp only
    split
    · exact hclear
    cases E.fileRead v.sh.tick with
    | data b =>
        dsimp only
        split
        · exact hclear
        · refine txBuffer_inOrder (v := v.tickOn) ?_ hact hpend h
          rw [List.length_take]
          show _ ≤ 4096
          omega
    | eintr =>
        exact h
    | eagain =>
        exact hclear
    | err =>
        exact hclear

end Handle

/-- The slot at the moment its session is established: nothing sent, nothing pending. -/
structure Established (v : View) (k : Key) : Prop where
  session : ∃ s, v.ps.session = some s ∧ s.tx = { k := k, n := 0, hasKey := true }
  txSeq : v.ps.txSeq = 0
  state : v.ps.state = .active
  txFile : v.ps.txFile.active = false ∧ v.ps.txFile.txBuf = []

section Stream

variable {P : Primitives} {E : Env} {i : Slot} {k : Key} {base : Bytes}

theorem established_inOrder
    {v : View} (h : Established v k) :
    InOrder P k (sentOn i v.sh.log) (txView i v) := by
  obtain ⟨s, hs, htx⟩ := h.session
  have hpend : v.ps.txFile.pending = [] := by
    unfold FileTx.pending
    rw [h.txFile.2, List.drop_nil]
  refine Or.inr ⟨s, [], 0, hs, by rw [htx], by rw [htx], ?_, fun _ => hpend, fun _ => h.txFile.2,
    (List.append_nil _).symm, ?_, h.txSeq, ?_⟩
  · rw [show (txView i v).state = .active from h.state]
    decide
  · rw [show (txView i v).pending = [] from hpend]
    exact OnWire.empty
  · rw [if_pos (by exact hpend), htx]
    rfl

theorem txStep_inOrder
    {v : View} {op : TxOp} (h : InOrder P k base (txView i v)) (hfine : TxFine P E v op) :
    InOrder P k base (txView i (txStep P E i v op)) := by
  cases op with
  | message msg =>
      exact message_inOrder h hfine
  | queued text =>
      exact queued_inOrder h hfine
  | start filepath =>
      exact start_inOrder h hfine
  | handle =>
      exact handle_inOrder h hfine

theorem txRun_inOrder
    {v : View} {ops : List TxOp} (h : InOrder P k base (txView i v))
    (hfine : TxRunFine P E i v ops) :
    InOrder P k base (txView i (txRun P E i v ops)) := by
  induction ops generalizing v with
  | nil =>
      exact h
  | cons op ops ih =>
      obtain ⟨hop, hops⟩ := hfine
      exact ih (txStep_inOrder h hop) hops

end Stream

/--
Transmit-stream integrity.  In every run of the four senders whose steps are all fine, as
long as the slot has not been torn down, the socket has taken complete frames in order and
a prefix of the next one, with the rest pending; and the `j`-th frame carries sequence
number and nonce `j`.
-/
theorem transmit_stream_fine
    (P : Primitives) (E : Env) (i : Slot) (k : Key) (v : View) (ops : List TxOp)
    (hstart : Established v k) (hfine : TxRunFine P E i v ops)
    (hlive : (txRun P E i v ops).ps.session ≠ none) :
    StreamOk P i k (sentOn i v.sh.log) (txRun P E i v ops) := by
  rcases txRun_inOrder (established_inOrder hstart) hfine with hnone | ⟨s, wire, m, hinv⟩
  · exact absurd hnone hlive
  · exact ⟨wire, m, hinv.sent, hinv.frames⟩

/-- The socket takes ten bytes of a frame in `tx_buf`, and everything of other writes. -/
def slowEnv : Env :=
  { sampleEnv with write := fun t => if t = 16 then .ok 10 else .ok 65536 }

/-- A message, a file whose chunk leaves in two pieces, and a queued text. -/
def slowOps : List TxOp :=
  [.message [0x68, 0x69], .start [0x66], .handle, .handle, .handle, .queued [0x71]]

/-- The run with a slow socket is fine, so its stream is in order. -/
theorem transmit_stream_slow :
    TxRunFine samplePrimitives slowEnv 0 sampleView slowOps ∧
      StreamOk samplePrimitives 0 (samplePair 1).pub (sentOn 0 sampleView.sh.log)
        (txRun samplePrimitives slowEnv 0 sampleView slowOps) := by
  have hstart : Established sampleView (samplePair 1).pub :=
    ⟨⟨sampleSession, rfl, rfl⟩, rfl, rfl, rfl, rfl⟩
  have hfine : TxRunFine samplePrimitives slowEnv 0 sampleView slowOps := by
    decide +kernel
  have hlive : (txRun samplePrimitives slowEnv 0 sampleView slowOps).ps.session ≠ none := by
    decide +kernel
  exact ⟨hfine, transmit_stream_fine samplePrimitives slowEnv 0 _ sampleView slowOps hstart hfine
    hlive⟩

/-- A socket that takes only five bytes of any write. -/
def shortEnv : Env :=
  { sampleEnv with write := fun _ => .ok 5 }

/--
The METADATA frame of a file is cut off after five bytes: the session goes on, nothing is
pending, and the stream is not made of frames.
-/
theorem transmit_stream_cut :
    Established sampleView (samplePair 1).pub ∧
      (txRun samplePrimitives shortEnv 0 sampleView [.start [0x66]]).ps.session ≠ none ∧
      ¬ StreamOk samplePrimitives 0 (samplePair 1).pub (sentOn 0 sampleView.sh.log)
        (txRun samplePrimitives shortEnv 0 sampleView [.start [0x66]]) := by
  refine ⟨⟨⟨sampleSession, rfl, rfl⟩, rfl, rfl, rfl, rfl⟩, by decide +kernel, ?_⟩
  rintro ⟨wire, m, hsent, hwire⟩
  have hlen : (sentOn 0 (txRun samplePrimitives shortEnv 0 sampleView [.start [0x66]]).sh.log).length
      = 5 := by
    decide +kernel
  have hpend : (txRun samplePrimitives shortEnv 0 sampleView [.start [0x66]]).ps.txFile.pending =
      [] := by
    decide +kernel
  rw [hpend] at hwire
  rw [hsent, show sentOn 0 sampleView.sh.log = [] from rfl, List.nil_append] at hlen
  have hnil : wire = [] := by
    refine hwire.eq_nil_of_short 13 ?_ (by omega)
    rintro j f ⟨type, pt, -, rfl⟩
    rw [frameBytes_length]
    exact Nat.le_add_right _ _
  rw [hnil] at hlen
  cases hlen

end App
end Noxtor
