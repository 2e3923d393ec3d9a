import Noxtor.Noise.Success
import Noxtor.Noise.Transport

/-!
# Agreement of the two sides of an XX handshake

An initiator and a responder that exchange the three messages reach the same
symmetric state after each message: for every message, what the writer produces is
what the reader undoes.  The split then gives both sides the same pair of keys, and
from there on each direction is a pair of counters that move together.

The hypotheses on the primitives are the two a Noise handshake rests on.  Opening
undoes sealing, and the three Diffie-Hellman computations of the pattern agree on a
secret that is not all-zero.
-/

namespace Noxtor
namespace Noise

open ByteString

section Messages

variable {P : Primitives}
  (haead : ∀ k n ad pt, P.aeadDecrypt k n ad (P.aeadEncrypt k n ad pt) = some pt)

theorem writeMsg0_ok
    (call : HsCall) {b : Buf} {outLen : Nat} {hs : NoiseHandshake}
    (hn : hs.ss.cs.n < uint64Max) (hb : b.len = b.bytes.length)
    (hp : b.bytes.length ≤ noxMaxMsgLen)
    (hfit : 32 + b.bytes.length ≤ outLen) :
    writeMsg0 P call b outLen hs =
      .ok (call.eph.pub.toList ++
            sealBytes P (symmetricMixHash P hs.ss call.eph.pub.toList) b.bytes)
        { hs with
          e := call.eph.priv, ePub := call.eph.pub
          ss := sealState P (symmetricMixHash P hs.ss call.eph.pub.toList) b.bytes } := by
  have hfit' : ¬ 32 + b.len > outLen := by omega
  unfold writeMsg0
  refine hsM_bind_ok (hsReject_ok hfit' .proto hs) ?_
  refine hsM_bind_ok (hsSendEphemeral_ok P call.eph _) ?_
  refine hsM_bind_ok (hsEncrypt_ok rfl hb (by simpa using hn) hp) ?_
  rfl

include haead in
theorem readMsg0_ok
    {pub : Key} {p : Bytes} {outCap : Nat} {hs : NoiseHandshake}
    (hn : hs.ss.cs.n < uint64Max) (hp : p.length ≤ noxMaxMsgLen)
    (hcap : p.length ≤ outCap) :
    readMsg0 P
        (pub.toList ++ sealBytes P (symmetricMixHash P hs.ss pub.toList) p) outCap hs =
      .ok p
        { hs with
          re := pub
          ss := sealState P (symmetricMixHash P hs.ss pub.toList) p } := by
  have hlen : ¬ (pub.toList ++ sealBytes P (symmetricMixHash P hs.ss pub.toList) p).length
      < 32 := by
    simp
  unfold readMsg0
  refine hsM_bind_ok (hsReject_ok hlen .proto hs) ?_
  rw [Block.ofBytes_append]
  refine hsM_bind_ok (hsRecvEphemeral_ok P pub _) ?_
  rw [List.drop_left' pub.toList_length]
  exact hsDecrypt_seal haead (by simpa using hn) hp hcap

/-- Symmetric state of message 1 when its static key is sealed. -/
def msg1Static (P : Primitives) (ss : SymmetricState) (pub ee : Key) : SymmetricState :=
  mixKey64 P (symmetricMixHash P ss pub.toList) ee.toList

/-- Symmetric state of message 1 when its payload is sealed. -/
def msg1Payload (P : Primitives) (ss : SymmetricState) (pub ee static es : Key) :
    SymmetricState :=
  mixKey64 P (sealState P (msg1Static P ss pub ee) static.toList) es.toList

theorem writeMsg1_ok
    {call : HsCall} {b : Buf} {outLen : Nat} {hs : NoiseHandshake} {ee es : Key}
    (ha1 : call.alloc1.Ok) (ha2 : call.alloc2.Ok)
    (hee : noiseDh P call.eph.priv hs.re = .ok ee)
    (hes : noiseDh P hs.s hs.re = .ok es)
    (hb : b.len = b.bytes.length)
    (hp : b.bytes.length ≤ noxMaxMsgLen) (hfit : 96 + b.bytes.length ≤ outLen) :
    writeMsg1 P call b outLen hs =
      .ok (call.eph.pub.toList ++
            sealBytes P (msg1Static P hs.ss call.eph.pub ee) hs.sPub.toList ++
            sealBytes P (msg1Payload P hs.ss call.eph.pub ee hs.sPub es) b.bytes)
        { hs with
          e := call.eph.priv, ePub := call.eph.pub, s := Block.zero 32
          ss := sealState P (msg1Payload P hs.ss call.eph.pub ee hs.sPub es) b.bytes } := by
  have hfit' : ¬ 32 + 32 + 16 + b.len + 16 > outLen := by omega
  unfold writeMsg1
  refine hsM_bind_ok (hsReject_ok hfit' .proto hs) ?_
  refine hsM_bind_ok (hsSendEphemeral_ok P call.eph _) ?_
  refine hsM_bind_ok (hsMixDh_ok ha1 hee) ?_
  refine hsM_bind_ok (hsEncrypt_ok rfl rfl zero_lt_uint64Max (by simp [noxMaxMsgLen])) ?_
  refine hsM_bind_ok (hsMixDh_ok ha2 hes) ?_
  refine hsM_bind_ok (hsEncrypt_ok rfl hb zero_lt_uint64Max hp) ?_
  rfl

include haead in
theorem readMsg1_ok
    {call : HsCall} {pub static : Key} {p : Bytes} {outCap : Nat}
    {hs : NoiseHandshake} {ee es : Key}
    (ha1 : call.alloc1.Ok) (ha2 : call.alloc2.Ok)
    (hee : noiseDh P hs.e pub = .ok ee)
    (hes : noiseDh P hs.e static = .ok es)
    (hp : p.length ≤ noxMaxMsgLen) (hcap : p.length ≤ outCap) :
    readMsg1 P call
        (pub.toList ++
          sealBytes P (msg1Static P hs.ss pub ee) static.toList ++
          sealBytes P (msg1Payload P hs.ss pub ee static es) p) outCap hs =
      .ok p
        { hs with
          re := pub, rs := static
          ss := sealState P (msg1Payload P hs.ss pub ee static es) p } := by
  have hst : (sealBytes P (msg1Static P hs.ss pub ee) static.toList).length = 48 := by
    rw [sealBytes_length]
    simp [msg1Static]
  have hlen : ¬ (pub.toList ++
      sealBytes P (msg1Static P hs.ss pub ee) static.toList ++
      sealBytes P (msg1Payload P hs.ss pub ee static es) p).length < 32 + 32 + 16 := by
    simp only [List.length_append, hst, List.Vector.toList_length]
    omega
  have h80 : (pub.toList ++
      sealBytes P (msg1Static P hs.ss pub ee) static.toList).length = 80 := by
    simp only [List.length_append, hst, List.Vector.toList_length]
  unfold readMsg1
  refine hsM_bind_ok (hsReject_ok hlen .proto hs) ?_
  rw [List.drop_left' h80, List.append_assoc, Block.ofBytes_append,
    List.drop_left' pub.toList_length, List.take_left' hst]
  refine hsM_bind_ok (hsRecvEphemeral_ok P pub _) ?_
  refine hsM_bind_ok (hsMixDh_ok ha1 hee) ?_
  refine hsM_bind_ok (hsRecvStatic_seal haead static zero_lt_uint64Max) ?_
  refine hsM_bind_ok (hsMixDh_ok ha2 hes) ?_
  exact hsDecrypt_seal haead zero_lt_uint64Max hp hcap

/-- Symmetric state of message 2 when its payload is sealed. -/
def msg2Payload (P : Primitives) (ss : SymmetricState) (static se : Key) : SymmetricState :=
  mixKey64 P (sealState P ss static.toList) se.toList

theorem writeMsg2_ok
    {call : HsCall} {b : Buf} {outLen : Nat} {hs : NoiseHandshake} {se : Key}
    (ha1 : call.alloc1.Ok) (hn : hs.ss.cs.n < uint64Max)
    (hse : noiseDh P hs.s hs.re = .ok se)
    (hb : b.len = b.bytes.length)
    (hp : b.bytes.length ≤ noxMaxMsgLen) (hfit : 64 + b.bytes.length ≤ outLen) :
    writeMsg2 P call b outLen hs =
      .ok (sealBytes P hs.ss hs.sPub.toList ++
            sealBytes P (msg2Payload P hs.ss hs.sPub se) b.bytes)
        { hs with
          s := Block.zero 32
          ss := sealState P (msg2Payload P hs.ss hs.sPub se) b.bytes } := by
  have hfit' : ¬ 32 + 16 + b.len + 16 > outLen := by omega
  unfold writeMsg2
  refine hsM_bind_ok (hsReject_ok hfit' .proto hs) ?_
  refine hsM_bind_ok (hsEncrypt_ok rfl rfl hn (by simp [noxMaxMsgLen])) ?_
  refine hsM_bind_ok (hsMixDh_ok ha1 hse) ?_
  refine hsM_bind_ok (hsEncrypt_ok rfl hb zero_lt_uint64Max hp) ?_
  rfl

include haead in
theorem readMsg2_ok
    {call : HsCall} {static : Key} {p : Bytes} {outCap : Nat}
    {hs : NoiseHandshake} {se : Key}
    (ha1 : call.alloc1.Ok) (hk : hs.ss.cs.hasKey = true) (hn : hs.ss.cs.n < uint64Max)
    (hse : noiseDh P hs.e static = .ok se)
    (hp : p.length ≤ noxMaxMsgLen) (hcap : p.length ≤ outCap) :
    readMsg2 P call
        (sealBytes P hs.ss static.toList ++
          sealBytes P (msg2Payload P hs.ss static se) p) outCap hs =
      .ok p
        { hs with
          rs := static
          ss := sealState P (msg2Payload P hs.ss static se) p } := by
  have hst : (sealBytes P hs.ss static.toList).length = 48 := by
    rw [sealBytes_length]
    simp [hk]
  have hlen : ¬ (sealBytes P hs.ss static.toList ++
      sealBytes P (msg2Payload P hs.ss static se) p).length < 32 + 16 := by
    simp only [List.length_append, hst]
    omega
  unfold readMsg2
  refine hsM_bind_ok (hsReject_ok hlen .proto hs) ?_
  rw [List.drop_left' hst, List.take_left' hst]
  refine hsM_bind_ok (hsRecvStatic_seal haead static hn) ?_
  refine hsM_bind_ok (hsMixDh_ok ha1 hse) ?_
  exact hsDecrypt_seal haead zero_lt_uint64Max hp hcap

end Messages

/--
The inputs of an exchange: static key pairs, one `HsCall` for each of the three writes
and reads, payloads, `out_len` of the writers, `out_cap` of the readers.  The ephemeral
key pairs are those of `w0` and `w1`.
-/
structure Exchange where
  sI : KeyPair
  sR : KeyPair
  w0 : HsCall
  w1 : HsCall
  w2 : HsCall
  r0 : HsCall
  r1 : HsCall
  r2 : HsCall
  splitI : HkdfAlloc
  splitR : HkdfAlloc
  p0 : Bytes
  p1 : Bytes
  p2 : Bytes
  outLen0 : Nat
  outLen1 : Nat
  outLen2 : Nat
  outCap0 : Nat
  outCap1 : Nat
  outCap2 : Nat

/-- What the calls return; the handshake objects are those before the split. -/
structure ExchangeResult where
  read0 : Bytes
  read1 : Bytes
  read2 : Bytes
  hsI : NoiseHandshake
  hsR : NoiseHandshake
  sessionI : NoiseSession
  sessionR : NoiseSession
deriving DecidableEq

/-- One call on a handshake object, given up at the first error. -/
def runHs {α : Type} (x : HsM α) (hs : NoiseHandshake) : Except NoxErr (α × NoiseHandshake) :=
  match x hs with
  | .ok a hs' => .ok (a, hs')
  | .error err _ => .error err

/-- Both sides, message by message, and then both splits. -/
def Exchange.run (P : Primitives) (x : Exchange) : Except NoxErr ExchangeResult := do
  let hsI ← handshakeInit P true (some x.sI.priv) (some x.sI.pub)
  let hsR ← handshakeInit P false (some x.sR.priv) (some x.sR.pub)
  let (m0, hsI) ← runHs (handshakeWrite P x.w0 (.data x.p0) (some x.outLen0)) hsI
  let (q0, hsR) ← runHs (handshakeRead P x.r0 (.data m0) (some x.outCap0)) hsR
  let (m1, hsR) ← runHs (handshakeWrite P x.w1 (.data x.p1) (some x.outLen1)) hsR
  let (q1, hsI) ← runHs (handshakeRead P x.r1 (.data m1) (some x.outCap1)) hsI
  let (m2, hsI) ← runHs (handshakeWrite P x.w2 (.data x.p2) (some x.outLen2)) hsI
  let (q2, hsR) ← runHs (handshakeRead P x.r2 (.data m2) (some x.outCap2)) hsR
  let (sessionI, _) ← runHs (handshakeSplit P x.splitI) hsI
  let (sessionR, _) ← runHs (handshakeSplit P x.splitR) hsR
  return { read0 := q0, read1 := q1, read2 := q2, hsI := hsI, hsR := hsR,
           sessionI := sessionI, sessionR := sessionR }

/-- Both computations of one Diffie-Hellman secret agree, and it is not all-zero. -/
def DhAgree (P : Primitives) (a b : KeyPair) : Prop :=
  ∃ d, d ≠ Block.zero 32 ∧ P.scalarmult a.priv b.pub = some d ∧
    P.scalarmult b.priv a.pub = some d

/-- Every allocation of the exchange succeeds. -/
def Exchange.AllocsOk (x : Exchange) : Prop :=
  x.w1.alloc1.Ok ∧ x.w1.alloc2.Ok ∧ x.w2.alloc1.Ok ∧
    x.r1.alloc1.Ok ∧ x.r1.alloc2.Ok ∧ x.r2.alloc1.Ok ∧ x.splitI.Ok ∧ x.splitR.Ok

/-- The payloads respect the limit of `handshake_write` and fit all buffers. -/
structure Exchange.Fits (x : Exchange) : Prop where
  max0 : x.p0.length ≤ noiseMaxHandshakeLen
  max1 : x.p1.length ≤ noiseMaxHandshakeLen
  max2 : x.p2.length ≤ noiseMaxHandshakeLen
  out0 : 32 + x.p0.length ≤ x.outLen0
  out1 : 96 + x.p1.length ≤ x.outLen1
  out2 : 64 + x.p2.length ≤ x.outLen2
  cap0 : x.p0.length ≤ x.outCap0
  cap1 : x.p1.length ≤ x.outCap1
  cap2 : x.p2.length ≤ x.outCap2

section Agreement

variable {P : Primitives}

theorem runHs_ok
    {α : Type} {x : HsM α} {hs hs' : NoiseHandshake} {a : α}
    (h : x hs = .ok a hs') :
    runHs x hs = .ok (a, hs') := by
  simp [runHs, h]

/-- An agreed secret is computed by `noise_dh` on both sides. -/
theorem noiseDh_of_agree
    (hzero : ∀ k, P.scalarmult k (Block.zero 32) = none)
    {a b : KeyPair} (h : DhAgree P a b) :
    ∃ d, noiseDh P a.priv b.pub = .ok d ∧ noiseDh P b.priv a.pub = .ok d := by
  obtain ⟨d, hd, hab, hba⟩ := h
  have ha : a.pub ≠ Block.zero 32 := by
    intro h0
    rw [h0, hzero] at hba
    cases hba
  have hb : b.pub ≠ Block.zero 32 := by
    intro h0
    rw [h0, hzero] at hab
    cases hab
  refine ⟨d, ?_, ?_⟩
  · simp [noiseDh, hb, hab, hd]
  · simp [noiseDh, ha, hba, hd]

/-- The object is in use, in the given role and with the given number of messages done. -/
structure AtTurn (hs : NoiseHandshake) (initiator : Bool) (idx : Nat) : Prop where
  notSplit : hs.splitDone = false
  notFailed : hs.failed = false
  role : hs.initiator = initiator
  index : hs.msgIndex = idx

/-- `handshake_write` hands an object in use to the message function of its turn. -/
theorem handshakeWrite_atTurn
    {hs : NoiseHandshake} {initiator : Bool} {idx : Nat} (h : AtTurn hs initiator idx)
    {call : HsCall} {p : Bytes} {outLen : Nat} (hp : p.length ≤ noiseMaxHandshakeLen) :
    handshakeWrite P call (.data p) (some outLen) hs =
      writeTurn P call (.data p) outLen hs := by
  have hmax : ¬ p.length > noiseMaxHandshakeLen := by omega
  simp [handshakeWrite, h.notSplit, h.notFailed, hmax]

theorem handshakeRead_atTurn
    {hs : NoiseHandshake} {initiator : Bool} {idx : Nat} (h : AtTurn hs initiator idx)
    {call : HsCall} {m : Bytes} {outCap : Nat} :
    handshakeRead P call (.data m) (some outCap) hs = readTurn P call m outCap hs := by
  simp [handshakeRead, h.notSplit, h.notFailed]

theorem hsTurn_ok
    {x : HsM Bytes} {out : Bytes} {hs hs' : NoiseHandshake}
    (h : x hs = .ok out hs') :
    hsTurn x hs = .ok out { hs' with msgIndex := hs'.msgIndex + 1 } := by
  simp [hsTurn, h]

/-- The two reads after which `e` is wiped. -/
theorem hsWipeE_ok
    {x : HsM Bytes} {out : Bytes} {hs hs' : NoiseHandshake}
    (h : x hs = .ok out hs') :
    hsWipeE x hs = .ok out { hs' with e := Block.zero 32 } := by
  unfold hsWipeE
  exact hsM_bind_ok h rfl

/-- First message: both sides move to the same symmetric state. -/
theorem exchange_round0
    (haead : ∀ k n ad pt, P.aeadDecrypt k n ad (P.aeadEncrypt k n ad pt) = some pt)
    (w r : HsCall) (hsI hsR : NoiseHandshake) {p : Bytes} {outLen outCap : Nat}
    (hI : AtTurn hsI true 0) (hR : AtTurn hsR false 0)
    (hss : hsR.ss = hsI.ss) (hn : hsI.ss.cs.n < uint64Max)
    (hmax : p.length ≤ noiseMaxHandshakeLen)
    (hout : 32 + p.length ≤ outLen) (hcap : p.length ≤ outCap) :
    ∃ m ss,
      handshakeWrite P w (.data p) (some outLen) hsI =
        .ok m { hsI with e := w.eph.priv, ePub := w.eph.pub, ss := ss, msgIndex := 1 } ∧
      handshakeRead P r (.data m) (some outCap) hsR =
        .ok p { hsR with re := w.eph.pub, ss := ss, msgIndex := 1 } := by
  have hp : p.length ≤ noxMaxMsgLen := hmax.trans (by decide)
  refine ⟨w.eph.pub.toList ++ sealBytes P (symmetricMixHash P hsI.ss w.eph.pub.toList) p,
    sealState P (symmetricMixHash P hsI.ss w.eph.pub.toList) p, ?_, ?_⟩
  · rw [handshakeWrite_atTurn hI hmax]
    have hwrite := hsTurn_ok (writeMsg0_ok (P := P) w (b := .data p) hn rfl hp hout)
    simp only [writeTurn, hwrite, hI.role, hI.index]
    rfl
  · rw [← hss] at hn ⊢
    rw [handshakeRead_atTurn hR]
    simp only [readTurn, hsTurn_ok (readMsg0_ok haead hn hp hcap), hR.role, hR.index]

/-- Second message. -/
theorem exchange_round1
    (haead : ∀ k n ad pt, P.aeadDecrypt k n ad (P.aeadEncrypt k n ad pt) = some pt)
    (w r : HsCall) (hsI hsR : NoiseHandshake) {p : Bytes} {outLen outCap : Nat} {ee es : Key}
    (hI : AtTurn hsI true 1) (hR : AtTurn hsR false 1) (hss : hsR.ss = hsI.ss)
    (hw : w.alloc1.Ok ∧ w.alloc2.Ok) (hr : r.alloc1.Ok ∧ r.alloc2.Ok)
    (heeR : noiseDh P w.eph.priv hsR.re = .ok ee) (heeI : noiseDh P hsI.e w.eph.pub = .ok ee)
    (hesR : noiseDh P hsR.s hsR.re = .ok es) (hesI : noiseDh P hsI.e hsR.sPub = .ok es)
    (hmax : p.length ≤ noiseMaxHandshakeLen)
    (hout : 96 + p.length ≤ outLen) (hcap : p.length ≤ outCap) :
    ∃ m ss,
      handshakeWrite P w (.data p) (some outLen) hsR =
        .ok m { hsR with
          e := w.eph.priv, ePub := w.eph.pub, s := Block.zero 32, ss := ss, msgIndex := 2 } ∧
      handshakeRead P r (.data m) (some outCap) hsI =
        .ok p { hsI with
          re := w.eph.pub, rs := hsR.sPub, e := Block.zero 32, ss := ss, msgIndex := 2 } ∧
      ss.cs.hasKey = true ∧ ss.cs.n < uint64Max := by
  have hp : p.length ≤ noxMaxMsgLen := hmax.trans (by decide)
  refine ⟨w.eph.pub.toList ++
      sealBytes P (msg1Static P hsR.ss w.eph.pub ee) hsR.sPub.toList ++
      sealBytes P (msg1Payload P hsR.ss w.eph.pub ee hsR.sPub es) p,
    sealState P (msg1Payload P hsR.ss w.eph.pub ee hsR.sPub es) p, ?_, ?_, ?_, ?_⟩
  · rw [handshakeWrite_atTurn hR hmax]
    have hwrite := hsTurn_ok (writeMsg1_ok (b := .data p) hw.1 hw.2 heeR hesR rfl hp hout)
    simp only [writeTurn, hwrite, hR.role, hR.index]
    rfl
  · rw [hss, handshakeRead_atTurn hI]
    have hread := hsTurn_ok (hsWipeE_ok (readMsg1_ok haead hr.1 hr.2 heeI hesI hp hcap))
    simp only [readTurn, hread, hI.role, hI.index]
  · simp [msg1Payload]
  · rw [sealState_n]
    simp only [msg1Payload, mixKey64_hasKey, mixKey64_n, if_true]
    decide

/-- Third message. -/
theorem exchange_round2
    (haead : ∀ k n ad pt, P.aeadDecrypt k n ad (P.aeadEncrypt k n ad pt) = some pt)
    (w r : HsCall) (hsI hsR : NoiseHandshake) {p : Bytes} {outLen outCap : Nat} {se : Key}
    (hI : AtTurn hsI true 2) (hR : AtTurn hsR false 2) (hss : hsR.ss = hsI.ss)
    (hk : hsI.ss.cs.hasKey = true) (hn : hsI.ss.cs.n < uint64Max)
    (hw : w.alloc1.Ok) (hr : r.alloc1.Ok)
    (hseI : noiseDh P hsI.s hsI.re = .ok se) (hseR : noiseDh P hsR.e hsI.sPub = .ok se)
    (hmax : p.length ≤ noiseMaxHandshakeLen)
    (hout : 64 + p.length ≤ outLen) (hcap : p.length ≤ outCap) :
    ∃ m ss,
      handshakeWrite P w (.data p) (some outLen) hsI =
        .ok m { hsI with s := Block.zero 32, ss := ss, msgIndex := 3 } ∧
      handshakeRead P r (.data m) (some outCap) hsR =
        .ok p { hsR with rs := hsI.sPub, e := Block.zero 32, ss := ss, msgIndex := 3 } := by
  have hp : p.length ≤ noxMaxMsgLen := hmax.trans (by decide)
  refine ⟨sealBytes P hsI.ss hsI.sPub.toList ++
      sealBytes P (msg2Payload P hsI.ss hsI.sPub se) p,
    sealState P (msg2Payload P hsI.ss hsI.sPub se) p, ?_, ?_⟩
  · rw [handshakeWrite_atTurn hI hmax]
    have hwrite := hsTurn_ok (writeMsg2_ok (b := .data p) hw hn hseI rfl hp hout)
    simp only [writeTurn, hwrite, hI.role, hI.index]
    rfl
  · rw [← hss] at hn hk ⊢
    rw [handshakeRead_atTurn hR]
    have hread := hsTurn_ok (hsWipeE_ok (readMsg2_ok haead hr hk hn hseR hp hcap))
    simp only [readTurn, hread, hR.role, hR.index]

/-- The keys a split hands out. -/
theorem handshakeSplit_ok
    {alloc : HkdfAlloc} (ha : alloc.Ok) (initiator : Bool) (hs : NoiseHandshake)
    (h : AtTurn hs initiator 3) :
    ∃ hs', handshakeSplit P alloc hs =
      .ok { tx := cipherInitKey (Block.ofBytes 32
              (if initiator then (hkdf64 P hs.ss.ck []).1 else (hkdf64 P hs.ss.ck []).2).toList),
            rx := cipherInitKey (Block.ofBytes 32
              (if initiator then (hkdf64 P hs.ss.ck []).2 else (hkdf64 P hs.ss.ck []).1).toList),
            remoteStatic := hs.rs } hs' := by
  cases initiator <;>
    simp [handshakeSplit, h.notSplit, h.notFailed, h.role, h.index, handshakeIsComplete,
      symmetricSplit, hkdfBlake2b_eq, ha]

theorem exchange_run_eq
    {x : Exchange} {hsI0 hsI1 hsI2 hsI3 hsI4 hsR0 hsR1 hsR2 hsR3 hsR4 : NoiseHandshake}
    {m0 m1 m2 q0 q1 q2 : Bytes} {sessionI sessionR : NoiseSession}
    (hinitI : handshakeInit P true (some x.sI.priv) (some x.sI.pub) = .ok hsI0)
    (hinitR : handshakeInit P false (some x.sR.priv) (some x.sR.pub) = .ok hsR0)
    (hw0 : handshakeWrite P x.w0 (.data x.p0) (some x.outLen0) hsI0 = .ok m0 hsI1)
    (hr0 : handshakeRead P x.r0 (.data m0) (some x.outCap0) hsR0 = .ok q0 hsR1)
    (hw1 : handshakeWrite P x.w1 (.data x.p1) (some x.outLen1) hsR1 = .ok m1 hsR2)
    (hr1 : handshakeRead P x.r1 (.data m1) (some x.outCap1) hsI1 = .ok q1 hsI2)
    (hw2 : handshakeWrite P x.w2 (.data x.p2) (some x.outLen2) hsI2 = .ok m2 hsI3)
    (hr2 : handshakeRead P x.r2 (.data m2) (some x.outCap2) hsR2 = .ok q2 hsR3)
    (hsplitI : handshakeSplit P x.splitI hsI3 = .ok sessionI hsI4)
    (hsplitR : handshakeSplit P x.splitR hsR3 = .ok sessionR hsR4) :
    x.run P = .ok { read0 := q0, read1 := q1, read2 := q2, hsI := hsI3, hsR := hsR3,
                    sessionI := sessionI, sessionR := sessionR } := by
  unfold Exchange.run
  rw [hinitI, hinitR]
  simp only [bind, Except.bind, runHs_ok hw0, runHs_ok hr0, runHs_ok hw1, runHs_ok hr1,
    runHs_ok hw2, runHs_ok hr2, runHs_ok hsplitI, runHs_ok hsplitR]
  rfl

/--
All calls of an exchange succeed.  Each side reads the other's payloads and ends with
the other's static key, and the two sessions hold the same two keys crosswise.
-/
theorem exchange_ok
    (haead : ∀ k n ad pt, P.aeadDecrypt k n ad (P.aeadEncrypt k n ad pt) = some pt)
    (hzero : ∀ k, P.scalarmult k (Block.zero 32) = none)
    (x : Exchange)
    (hee : DhAgree P x.w0.eph x.w1.eph)
    (hes : DhAgree P x.w0.eph x.sR)
    (hse : DhAgree P x.sI x.w1.eph)
    (halloc : x.AllocsOk) (hfit : x.Fits) :
    ∃ r, x.run P = .ok r ∧
      r.read0 = x.p0 ∧ r.read1 = x.p1 ∧ r.read2 = x.p2 ∧
      r.hsI.rs = x.sR.pub ∧ r.hsR.rs = x.sI.pub ∧
      r.sessionI.remoteStatic = x.sR.pub ∧ r.sessionR.remoteStatic = x.sI.pub ∧
      ∃ k1 k2, (r.sessionI.tx = cipherInitKey k1 ∧ r.sessionI.rx = cipherInitKey k2) ∧
        (r.sessionR.tx = cipherInitKey k2 ∧ r.sessionR.rx = cipherInitKey k1) := by
  obtain ⟨ee, heeI, heeR⟩ := noiseDh_of_agree hzero hee
  obtain ⟨es, hesI, hesR⟩ := noiseDh_of_agree hzero hes
  obtain ⟨se, hseI, hseR⟩ := noiseDh_of_agree hzero hse
  obtain ⟨hw11, hw12, hw2, hr11, hr12, hr2, hspI, hspR⟩ := halloc
  have hinitI : handshakeInit P true (some x.sI.priv) (some x.sI.pub) =
      .ok (handshakeInitNamed P noiseProtocolName true x.sI.priv x.sI.pub) := rfl
  have hinitR : handshakeInit P false (some x.sR.priv) (some x.sR.pub) =
      .ok (handshakeInitNamed P noiseProtocolName false x.sR.priv x.sR.pub) := rfl
  obtain ⟨m0, ss1, hwrite0, hread0⟩ := exchange_round0 haead x.w0 x.r0
    (handshakeInitNamed P noiseProtocolName true x.sI.priv x.sI.pub)
    (handshakeInitNamed P noiseProtocolName false x.sR.priv x.sR.pub)
    ⟨rfl, rfl, rfl, rfl⟩ ⟨rfl, rfl, rfl, rfl⟩ rfl zero_lt_uint64Max
    hfit.max0 hfit.out0 hfit.cap0
  obtain ⟨m1, ss2, hwrite1, hread1, hk, hn⟩ := exchange_round1 haead x.w1 x.r1
    { handshakeInitNamed P noiseProtocolName true x.sI.priv x.sI.pub with
      e := x.w0.eph.priv, ePub := x.w0.eph.pub, ss := ss1, msgIndex := 1 }
    { handshakeInitNamed P noiseProtocolName false x.sR.priv x.sR.pub with
      re := x.w0.eph.pub, ss := ss1, msgIndex := 1 }
    ⟨rfl, rfl, rfl, rfl⟩ ⟨rfl, rfl, rfl, rfl⟩ rfl
    ⟨hw11, hw12⟩ ⟨hr11, hr12⟩ heeR heeI hesR hesI hfit.max1 hfit.out1 hfit.cap1
  obtain ⟨m2, ss3, hwrite2, hread2⟩ := exchange_round2 haead x.w2 x.r2
    { handshakeInitNamed P noiseProtocolName true x.sI.priv x.sI.pub with
      e := Block.zero 32, ePub := x.w0.eph.pub, re := x.w1.eph.pub, rs := x.sR.pub,
      ss := ss2, msgIndex := 2 }
    { handshakeInitNamed P noiseProtocolName false x.sR.priv x.sR.pub with
      re := x.w0.eph.pub, e := x.w1.eph.priv, ePub := x.w1.eph.pub, s := Block.zero 32,
      ss := ss2, msgIndex := 2 }
    ⟨rfl, rfl, rfl, rfl⟩ ⟨rfl, rfl, rfl, rfl⟩ rfl hk hn
    hw2 hr2 hseI hseR hfit.max2 hfit.out2 hfit.cap2
  obtain ⟨hsI', hsplitI⟩ := handshakeSplit_ok (P := P) hspI true
    { handshakeInitNamed P noiseProtocolName true x.sI.priv x.sI.pub with
      s := Block.zero 32, e := Block.zero 32, ePub := x.w0.eph.pub, re := x.w1.eph.pub,
      rs := x.sR.pub, ss := ss3, msgIndex := 3 } ⟨rfl, rfl, rfl, rfl⟩
  obtain ⟨hsR', hsplitR⟩ := handshakeSplit_ok (P := P) hspR false
    { handshakeInitNamed P noiseProtocolName false x.sR.priv x.sR.pub with
      re := x.w0.eph.pub, rs := x.sI.pub, e := Block.zero 32, ePub := x.w1.eph.pub,
      s := Block.zero 32, ss := ss3, msgIndex := 3 } ⟨rfl, rfl, rfl, rfl⟩
  refine ⟨_, exchange_run_eq hinitI hinitR hwrite0 hread0 hwrite1 hread1 hwrite2 hread2
    hsplitI hsplitR, rfl, rfl, rfl, rfl, rfl, rfl, rfl, ?_⟩
  exact ⟨_, _, ⟨rfl, rfl⟩, rfl, rfl⟩

def sampleCall (b : UInt8) : HsCall :=
  { eph := samplePair b, alloc1 := sampleAlloc, alloc2 := sampleAlloc }

/-- Static keys 1 and 2, ephemeral keys 3 and 4, a two-byte payload in each message. -/
def sampleExchange : Exchange :=
  { sI := samplePair 1, sR := samplePair 2
    w0 := sampleCall 3, w1 := sampleCall 4, w2 := sampleCall 5
    r0 := sampleCall 5, r1 := sampleCall 5, r2 := sampleCall 5
    splitI := sampleAlloc, splitR := sampleAlloc
    p0 := [1, 2], p1 := [3, 4], p2 := [5, 6]
    outLen0 := 256, outLen1 := 256, outLen2 := 256
    outCap0 := 256, outCap1 := 256, outCap2 := 256 }

theorem samplePrimitives_scalarmult_zero
    (k : Key) :
    samplePrimitives.scalarmult k (Block.zero 32) = none := by
  simp [samplePrimitives]

theorem samplePair_agree
    (a b : UInt8) (ha : a ≠ 0) (hb : b ≠ 0) (hab : a + b ≠ 0) :
    DhAgree samplePrimitives (samplePair a) (samplePair b) := by
  have hne : ∀ c : UInt8, c ≠ 0 → (samplePair c).pub ≠ Block.zero 32 := by
    intro c hc h
    apply hc
    have h' := congrArg List.Vector.head h
    exact h'
  have hmap : ∀ c d : UInt8, List.Vector.map₂ (· + ·) (samplePair c).priv (samplePair d).pub =
      (samplePair (c + d)).pub := by
    intro c d
    rfl
  refine ⟨(samplePair (a + b)).pub, hne _ hab, ?_, ?_⟩
  · simp only [samplePrimitives, if_neg (hne b hb), hmap]
  · simp only [samplePrimitives, if_neg (hne a ha), hmap, UInt8.add_comm b a]

theorem sampleExchange_allocsOk : sampleExchange.AllocsOk := by
  unfold Exchange.AllocsOk
  decide

theorem sampleExchange_fits : sampleExchange.Fits := by
  constructor <;> decide

/--
Agreement.  After an exchange each side has the other's payloads and static key, the
sessions hold the same keys crosswise with both counters at zero, and from there on
every schedule of sends and ordered deliveries goes through: no call fails, and what is
received in a direction is what was sent in it, in order.
-/
theorem exchange_agrees
    (haead : ∀ k n ad pt, P.aeadDecrypt k n ad (P.aeadEncrypt k n ad pt) = some pt)
    (hzero : ∀ k, P.scalarmult k (Block.zero 32) = none)
    (x : Exchange)
    (hee : DhAgree P x.w0.eph x.w1.eph)
    (hes : DhAgree P x.w0.eph x.sR)
    (hse : DhAgree P x.sI x.w1.eph)
    (halloc : x.AllocsOk) (hfit : x.Fits) :
    ∃ r, x.run P = .ok r ∧
      r.read0 = x.p0 ∧ r.read1 = x.p1 ∧ r.read2 = x.p2 ∧
      r.hsI.rs = x.sR.pub ∧ r.hsR.rs = x.sI.pub ∧
      r.sessionI.remoteStatic = x.sR.pub ∧ r.sessionR.remoteStatic = x.sI.pub ∧
      r.sessionI.tx.k = r.sessionR.rx.k ∧ r.sessionI.rx.k = r.sessionR.tx.k ∧
      r.sessionI.tx.n = 0 ∧ r.sessionI.rx.n = 0 ∧
      r.sessionR.tx.n = 0 ∧ r.sessionR.rx.n = 0 ∧
      ∀ ops : List ChannelOp,
        (∀ b, ∀ pt ∈ ChannelOp.sentBy b ops, pt.length ≤ noxMaxMsgLen) →
        (∀ b, (ChannelOp.sentBy b ops).length < 2 ^ 64) →
        ∃ c, (Channel.ofSessions r.sessionI r.sessionR).run P ops = some c ∧
          ∀ b, c.got b <+: ChannelOp.sentBy b ops ∧
            (c.got b).length + (c.flight b).length = (ChannelOp.sentBy b ops).length := by
  obtain ⟨r, hrun, h0, h1, h2, hrsI, hrsR, hremI, hremR, k1, k2, hI, hR⟩ :=
    exchange_ok haead hzero x hee hes hse halloc hfit
  refine ⟨r, hrun, h0, h1, h2, hrsI, hrsR, hremI, hremR, ?_⟩
  refine ⟨by rw [hI.1, hR.2], by rw [hI.2, hR.1], by rw [hI.1]; rfl, by rw [hI.2]; rfl,
    by rw [hR.1]; rfl, by rw [hR.2]; rfl, ?_⟩
  intro ops hshort hroom
  have hok := channelOk_ofSessions (P := P) hI hR
  obtain ⟨c, hc, hcOk⟩ := channelRun_ok haead ops hok hshort (by simpa using hroom)
  refine ⟨c, hc, ?_⟩
  intro b
  simpa using channelOk_got hcOk b

theorem exchange_agrees_sample :
    ∃ r, sampleExchange.run samplePrimitives = .ok r ∧
      r.read0 = [1, 2] ∧ r.read1 = [3, 4] ∧ r.read2 = [5, 6] ∧
      r.hsI.rs = (samplePair 2).pub ∧ r.hsR.rs = (samplePair 1).pub := by
  obtain ⟨r, hrun, h0, h1, h2, hI, hR, -⟩ := exchange_agrees samplePrimitives_open_seal
    samplePrimitives_scalarmult_zero sampleExchange
    (samplePair_agree 3 4 (by decide) (by decide) (by decide))
    (samplePair_agree 3 2 (by decide) (by decide) (by decide))
    (samplePair_agree 1 4 (by decide) (by decide) (by decide))
    sampleExchange_allocsOk sampleExchange_fits
  exact ⟨r, hrun, h0, h1, h2, hI, hR⟩

/-- `handshake_write` refuses a first payload above its limit, whatever the buffers. -/
theorem exchange_run_long
    {x : Exchange} (hlong : x.p0.length > noiseMaxHandshakeLen) :
    x.run P = .error .proto := by
  have hwrite : runHs (handshakeWrite P x.w0 (.data x.p0) (some x.outLen0))
      (handshakeInitNamed P noiseProtocolName true x.sI.priv x.sI.pub) = .error .proto := by
    simp [runHs, handshakeWrite, handshakeInitNamed, hlong]
  unfold Exchange.run
  simp only [handshakeInit, bind, Except.bind, hwrite]

theorem sentBy_replicate
    (n : Nat) :
    ChannelOp.sentBy true (List.replicate n (.send true [])) = List.replicate n [] := by
  induction n with
  | zero =>
      rfl
  | succ n ih =>
      simp [List.replicate_succ, ChannelOp.sentBy, ih]

/--
Two limits the buffers do not show.  A payload of 257 bytes is refused although both
buffers would hold it, and the transport counter stops before `2 ^ 64` plaintexts.
-/
theorem exchange_limits :
    (32 + (List.replicate 257 (0 : UInt8)).length ≤ 1000 ∧
      ({ sampleExchange with
          p0 := List.replicate 257 0, outLen0 := 1000, outCap0 := 1000 } : Exchange).run
        samplePrimitives = .error .proto) ∧
    ∃ r, sampleExchange.run samplePrimitives = .ok r ∧
      (Channel.ofSessions r.sessionI r.sessionR).run samplePrimitives
        (List.replicate (2 ^ 64) (.send true [])) = none := by
  have h257 : (List.replicate 257 (0 : UInt8)).length = 257 := List.length_replicate
  refine ⟨⟨by rw [h257]; decide, exchange_run_long ?_⟩, ?_⟩
  · show (List.replicate 257 (0 : UInt8)).length > noiseMaxHandshakeLen
    rw [h257]
    decide
  obtain ⟨r, hrun, -, -, -, -, -, -, -, k1, k2, hI, hR⟩ := exchange_ok samplePrimitives_open_seal
    samplePrimitives_scalarmult_zero sampleExchange
    (samplePair_agree 3 4 (by decide) (by decide) (by decide))
    (samplePair_agree 3 2 (by decide) (by decide) (by decide))
    (samplePair_agree 1 4 (by decide) (by decide) (by decide))
    sampleExchange_allocsOk sampleExchange_fits
  refine ⟨r, hrun, ?_⟩
  apply channelRun_exhausted (b := true)
  · show r.sessionI.tx.hasKey = true
    rw [hI.1]
    rfl
  · intro pt hpt
    rw [sentBy_replicate] at hpt
    rw [List.eq_of_mem_replicate hpt]
    exact Nat.zero_le _
  · rw [sentBy_replicate, List.length_replicate]

end Agreement

end Noise
end Noxtor
