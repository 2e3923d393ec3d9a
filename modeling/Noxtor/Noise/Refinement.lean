import Noxtor.Lib.NoiseSpec
import Noxtor.Noise.Agreement

/-!
# The handshake object refines the Noise interpreter

`noxSuite` reads the primitives as the suite 25519, ChaChaPoly, BLAKE2b of the
framework, and `absSym` reads a symmetric state of the code as one of the interpreter.
The relation `HsRel` adds the keys.  The code wipes a private key after its last use,
so the relation asks for the keys that the remaining messages still need and no more.

Each call of the code is compared with the interpreter on the same inputs.  If the code
accepts, the interpreter accepts with the same bytes and the states stay related.  If
the code rejects and the interpreter does not, then a size limit was exceeded, an
allocation failed, or a Diffie-Hellman input or output was all-zero.
-/

namespace Noxtor
namespace Noise

open ByteString

section Abstraction

variable (P : Primitives)

/-- The Diffie-Hellman function with libsodium's refusal read as the zero output. -/
def dhBytes (priv pub : Key) : Bytes :=
  ((P.scalarmult priv pub).getD (Block.zero 32)).toList

/-- The suite of the protocol name, over the primitives. -/
def noxSuite : NoiseSpec.Suite where
  hashLen := 64
  blockLen := 128
  dhLen := 32
  tagLen := 16
  hash data := (P.blake2b data).toList
  dh priv pub := dhBytes P (Block.ofBytes 32 priv) (Block.ofBytes 32 pub)
  encrypt k n ad pt := P.aeadEncrypt (Block.ofBytes 32 k) (encodeNonce (UInt64.ofNat n)) ad pt
  decrypt k n ad ct := P.aeadDecrypt (Block.ofBytes 32 k) (encodeNonce (UInt64.ofNat n)) ad ct

/-- The interpreter's view of a symmetric state: `ck`, `h`, `k` and `n`. -/
def absSym (ss : SymmetricState) : NoiseSpec.SymmetricState :=
  { ck := ss.ck.toList, h := ss.h.toList,
    cs := { k := if ss.cs.hasKey then some ss.cs.k.toList else none,
            n := ss.cs.n.toNat } }

/-- A key pair of the code as one of the interpreter. -/
def absPair (kp : KeyPair) : NoiseSpec.KeyPair :=
  { priv := kp.priv.toList, pub := kp.pub.toList }

/-- Plaintext of a received field, before the size limits of the code. -/
def openBytes (ss : SymmetricState) (ct : Bytes) : Option Bytes :=
  if ss.cs.hasKey then
    if ss.cs.n ≥ uint64Max then none
    else P.aeadDecrypt ss.cs.k (encodeNonce ss.cs.n) ss.h.toList ct
  else some ct

/-- State after a field has been opened. -/
def openState (ss : SymmetricState) (ct : Bytes) : SymmetricState :=
  symmetricMixHash P
    { ss with cs := if ss.cs.hasKey then { ss.cs with n := ss.cs.n + 1 } else ss.cs } ct

end Abstraction

section Symmetric

variable {P : Primitives}

@[simp] theorem suite_dh
    (priv pub : Key) :
    (noxSuite P).dh priv.toList pub.toList = dhBytes P priv pub := by
  simp [noxSuite, Block.ofBytes_toList]

theorem suite_hmac
    (key : Block 64) (data : Bytes) :
    NoiseSpec.hmac (noxSuite P) key.toList data = (hmac64 P key data).toList := by
  have hpad : (Block.ofBytes blake2bBlockSize key.toList).toList =
      key.toList ++ List.replicate 64 0 := by
    rw [Block.toList_ofBytes_of_ge (by simp [blake2bBlockSize])]
    simp [blake2bBlockSize]
  simp [NoiseSpec.hmac, hmac64, noxSuite, hpad]

theorem suite_hkdf
    (ck : Block 64) (ikm : Bytes) :
    NoiseSpec.hkdf (noxSuite P) ck.toList ikm =
      ((hkdf64 P ck ikm).1.toList, (hkdf64 P ck ikm).2.toList) := by
  simp only [NoiseSpec.hkdf, suite_hmac, hkdf64]

theorem absSym_mixHash
    (ss : SymmetricState) (data : Bytes) :
    (absSym ss).mixHash (noxSuite P) data = absSym (symmetricMixHash P ss data) := by
  rfl

theorem absSym_mixKey
    (ss : SymmetricState) (ikm : Bytes) :
    (absSym ss).mixKey (noxSuite P) ikm = absSym (mixKey64 P ss ikm) := by
  have hk : (Block.ofBytes 32 (hkdf64 P ss.ck ikm).2.toList).toList =
      (hkdf64 P ss.ck ikm).2.toList.take 32 :=
    Block.toList_ofBytes_of_le (by simp)
  simp [NoiseSpec.SymmetricState.mixKey, absSym, suite_hkdf, mixKey64, cipherInitKey, hk]

theorem absSym_init
    (name : Bytes) :
    NoiseSpec.initializeSymmetric (noxSuite P) name = absSym (symmetricInit P name) := by
  have hlen : (noxSuite P).hashLen = 64 := rfl
  by_cases h : name.length ≤ 64
  · simp [NoiseSpec.initializeSymmetric, symmetricInit, absSym, cipherInit, hlen, h,
      Block.toList_ofBytes_of_ge h]
  · simp [NoiseSpec.initializeSymmetric, symmetricInit, absSym, cipherInit, hlen, h]
    rfl

theorem toNat_eq_maxNonce
    (n : UInt64) :
    n.toNat = NoiseSpec.maxNonce ↔ n ≥ uint64Max := by
  have h := n.toNat_lt
  rw [ge_iff_le, UInt64.le_iff_toNat_le, uint64Max_toNat]
  unfold NoiseSpec.maxNonce
  omega

theorem absSym_encryptAndHash
    {ss : SymmetricState} (hn : ss.cs.n < uint64Max) (pt : Bytes) :
    (absSym ss).encryptAndHash (noxSuite P) pt =
      some (sealBytes P ss pt, absSym (sealState P ss pt)) := by
  have hmax : ¬ ss.cs.n.toNat = NoiseSpec.maxNonce := by
    rw [toNat_eq_maxNonce]
    simpa using hn
  cases hk : ss.cs.hasKey with
  | false =>
      simp [NoiseSpec.SymmetricState.encryptAndHash, NoiseSpec.CipherState.encryptWithAd,
        absSym, hk, sealBytes, sealState, symmetricMixHash, NoiseSpec.SymmetricState.mixHash,
        noxSuite]
  | true =>
      simp [NoiseSpec.SymmetricState.encryptAndHash, NoiseSpec.CipherState.encryptWithAd,
        absSym, hk, hmax, sealBytes, sealState, symmetricMixHash,
        NoiseSpec.SymmetricState.mixHash, noxSuite, Block.ofBytes_toList,
        toNat_succ_of_lt hn]

theorem absSym_decryptAndHash
    (ss : SymmetricState) (ct : Bytes) :
    (absSym ss).decryptAndHash (noxSuite P) ct =
      (openBytes P ss ct).map fun pt => (pt, absSym (openState P ss ct)) := by
  cases hk : ss.cs.hasKey with
  | false =>
      simp [NoiseSpec.SymmetricState.decryptAndHash, NoiseSpec.CipherState.decryptWithAd,
        absSym, hk, openBytes, openState, symmetricMixHash, NoiseSpec.SymmetricState.mixHash,
        noxSuite]
  | true =>
      by_cases hn : ss.cs.n ≥ uint64Max
      · have hmax := (toNat_eq_maxNonce ss.cs.n).mpr hn
        simp [NoiseSpec.SymmetricState.decryptAndHash, NoiseSpec.CipherState.decryptWithAd,
          absSym, hk, hmax, openBytes, hn]
      · have hmax : ¬ ss.cs.n.toNat = NoiseSpec.maxNonce := by
          rw [toNat_eq_maxNonce]
          exact hn
        have hlt : ss.cs.n < uint64Max := by simpa using hn
        cases hd : P.aeadDecrypt ss.cs.k (encodeNonce ss.cs.n) ss.h.toList ct with
        | none =>
            simp [NoiseSpec.SymmetricState.decryptAndHash, NoiseSpec.CipherState.decryptWithAd,
              absSym, hk, hmax, openBytes, hn, noxSuite, Block.ofBytes_toList, hd]
        | some pt =>
            simp [NoiseSpec.SymmetricState.decryptAndHash, NoiseSpec.CipherState.decryptWithAd,
              absSym, hk, hmax, openBytes, hn, noxSuite, Block.ofBytes_toList, hd, openState,
              symmetricMixHash, NoiseSpec.SymmetricState.mixHash, toNat_succ_of_lt hlt]

end Symmetric

/-- The keys that the remaining messages of the given role need, and the peer's static
key once it is known. -/
def KeysRel (hs : NoiseHandshake) (x : NoiseSpec.HandshakeState) : Prop :=
  match hs.initiator, hs.msgIndex with
  | true, 0 => x.s.priv = hs.s.toList
  | true, 1 => x.s.priv = hs.s.toList ∧ ∃ kp, x.e = some kp ∧ kp.priv = hs.e.toList
  | true, 2 =>
      x.s.priv = hs.s.toList ∧ x.re = some hs.re.toList ∧ x.rs = some hs.rs.toList
  | true, _ => x.rs = some hs.rs.toList
  | false, 0 => x.s.priv = hs.s.toList
  | false, 1 => x.s.priv = hs.s.toList ∧ x.re = some hs.re.toList
  | false, 2 => ∃ kp, x.e = some kp ∧ kp.priv = hs.e.toList
  | false, _ => x.rs = some hs.rs.toList

/-- A handshake object in use and the interpreter's object at the same message. -/
structure HsRel (hs : NoiseHandshake) (x : NoiseSpec.HandshakeState) : Prop where
  sym : x.sym = absSym hs.ss
  role : x.initiator = hs.initiator
  patterns : x.patterns = NoiseSpec.patternXX.drop hs.msgIndex
  pub : x.s.pub = hs.sPub.toList
  notSplit : hs.splitDone = false
  notFailed : hs.failed = false
  keyed : hs.ss.cs.hasKey = decide (2 ≤ hs.msgIndex)
  nonce : hs.ss.cs.n < uint64Max
  keys : KeysRel hs x

/-- A recorded DH operation with an all-zero public key or output. -/
def ZeroDh (d : Bytes × Bytes) : Prop :=
  d.1 = List.replicate 32 0 ∨ d.2 = List.replicate 32 0

instance (d : Bytes × Bytes) : Decidable (ZeroDh d) :=
  inferInstanceAs (Decidable (_ ∨ _))

/--
The code's result against the interpreter's.  Acceptance carries over with the same
bytes; a rejection is excused by `limit`, or the interpreter rejects as well unless one
of its new DH operations is `ZeroDh`.
-/
def Refines (hs : NoiseHandshake) (limit : Prop) (x : NoiseSpec.HandshakeState)
    (code : EStateM.Result NoxErr NoiseHandshake Bytes)
    (spec : Option (Bytes × NoiseSpec.HandshakeState)) : Prop :=
  match code with
  | .ok out hs' =>
      ∃ x', spec = some (out, x') ∧ HsRel hs' x' ∧ hs'.msgIndex = hs.msgIndex + 1
  | .error _ _ =>
      limit ∨ ∀ out x', spec = some (out, x') → ∃ d ∈ x'.dhs.drop x.dhs.length, ZeroDh d

section Messages

variable {P : Primitives}

theorem noiseDh_ok_iff
    {priv pub d : Key} (h : noiseDh P priv pub = .ok d) :
    dhBytes P priv pub = d.toList := by
  unfold noiseDh at h
  split at h
  · cases h
  · split at h
    · cases h
    · rename_i out hout
      split at h
      · cases h
      · cases h
        simp [dhBytes, hout]

theorem noiseDh_error
    {priv pub : Key} {err : NoxErr} (h : noiseDh P priv pub = .error err) :
    ZeroDh (pub.toList, dhBytes P priv pub) := by
  unfold noiseDh at h
  split at h
  · rename_i hpub
    left
    rw [hpub]
    rfl
  · right
    split at h
    · rename_i hout
      simp [dhBytes, hout]
    · rename_i out hout
      split at h
      · rename_i hzero
        simp [dhBytes, hout, hzero]
      · cases h

theorem hsTurn_error
    {x : HsM Bytes} {err : NoxErr} {hs hs' : NoiseHandshake}
    (h : x hs = .error err hs') :
    hsTurn x hs = .error err (hsFail hs') := by
  simp [hsTurn, h]

/-- The call returns an error. -/
def HsFails {α : Type} (r : EStateM.Result NoxErr NoiseHandshake α) : Prop :=
  ∃ err hs', r = .error err hs'

theorem hsFails_bind_ok
    {α β : Type} {y : HsM α} {f : α → HsM β} {hs hs' : NoiseHandshake} {a : α}
    (h : y hs = .ok a hs') (hf : HsFails (f a hs')) :
    HsFails ((y >>= f) hs) := by
  obtain ⟨err, hs'', hf⟩ := hf
  exact ⟨err, hs'', hsM_bind_ok h hf⟩

theorem hsFails_bind_error
    {α β : Type} {y : HsM α} {f : α → HsM β} {hs hs' : NoiseHandshake} {err : NoxErr}
    (h : y hs = .error err hs') :
    HsFails ((y >>= f) hs) := by
  exact ⟨err, hs', hsM_bind_error h⟩

theorem hsMixDh_error
    {alloc : HkdfAlloc} {priv pub : NoiseHandshake → Key} {hs : NoiseHandshake} {err : NoxErr}
    (hd : noiseDh P (priv hs) (pub hs) = .error err) :
    hsMixDh P alloc priv pub hs = .error .crypto hs := by
  simp [hsMixDh, hd]

theorem hsMixDh_alloc
    {alloc : HkdfAlloc} (ha : ¬ alloc.Ok)
    {priv pub : NoiseHandshake → Key} {hs : NoiseHandshake} {d : Key}
    (hd : noiseDh P (priv hs) (pub hs) = .ok d) :
    hsMixDh P alloc priv pub hs =
      .error .alloc { hs with ss := { hs.ss with ck := Block.zero 64 } } := by
  simp [hsMixDh, hd, symmetricMixKey, hkdfBlake2b_eq, ha]

/-- A rejection that a limit excuses. -/
theorem refines_of_limit
    {limit : Prop} (hlimit : limit) {x : NoiseSpec.HandshakeState}
    {y : HsM Bytes} {hs : NoiseHandshake} (hfail : HsFails (y hs))
    (spec : Option (Bytes × NoiseSpec.HandshakeState)) :
    Refines hs limit x (hsTurn y hs) spec := by
  obtain ⟨err, hs', h⟩ := hfail
  rw [hsTurn_error h]
  exact .inl hlimit

/-- A rejection for which the interpreter, if it goes on, records an all-zero DH. -/
theorem refines_of_zeroDh
    {limit : Prop} {x : NoiseSpec.HandshakeState}
    {y : HsM Bytes} {hs : NoiseHandshake} (hfail : HsFails (y hs))
    {spec : Option (Bytes × NoiseSpec.HandshakeState)}
    (hspec : ∀ out x', spec = some (out, x') →
      ∃ d l, d ∈ l ∧ x'.dhs = x.dhs ++ l ∧ ZeroDh d) :
    Refines hs limit x (hsTurn y hs) spec := by
  obtain ⟨err, hs', h⟩ := hfail
  rw [hsTurn_error h]
  refine .inr ?_
  intro out x' hx'
  obtain ⟨d, l, hd, hl, hzero⟩ := hspec out x' hx'
  refine ⟨d, ?_, hzero⟩
  rw [hl, List.drop_left]
  exact hd

/-- A rejection of both sides. -/
theorem refines_of_reject
    {limit : Prop} {x : NoiseSpec.HandshakeState}
    {y : HsM Bytes} {hs : NoiseHandshake} (hfail : HsFails (y hs))
    {spec : Option (Bytes × NoiseSpec.HandshakeState)} (hspec : spec = none) :
    Refines hs limit x (hsTurn y hs) spec := by
  refine refines_of_zeroDh hfail ?_
  intro out x' hx'
  rw [hspec] at hx'
  cases hx'

/-- `-> e` on the interpreter's side. -/
theorem writeMessage_e
    {hs : NoiseHandshake} {x : NoiseSpec.HandshakeState} (hrel : HsRel hs x)
    (hI : hs.initiator = true) (hm : hs.msgIndex = 0) (eph : KeyPair) (pt : Bytes) :
    x.writeMessage (noxSuite P) (absPair eph) pt =
      some (eph.pub.toList ++ sealBytes P (symmetricMixHash P hs.ss eph.pub.toList) pt,
        { x with
          e := some (absPair eph)
          sym := absSym (sealState P (symmetricMixHash P hs.ss eph.pub.toList) pt)
          patterns := NoiseSpec.patternXX.drop 1 }) := by
  have hn : (symmetricMixHash P hs.ss eph.pub.toList).cs.n < uint64Max := hrel.nonce
  have hpat : x.patterns = NoiseSpec.patternXX := by
    rw [hrel.patterns, hm]
    rfl
  simp only [NoiseSpec.HandshakeState.writeMessage, hpat, NoiseSpec.patternXX, hrel.role, hI,
    NoiseSpec.HandshakeState.writeTokens, NoiseSpec.HandshakeState.writeToken, hrel.sym,
    absSym_mixHash, absPair, absSym_encryptAndHash hn, if_true, List.append_nil,
    List.drop_succ_cons, List.drop_zero]

/-- `<- e, ee, s, es` on the interpreter's side. -/
theorem writeMessage_e_ee_s_es
    {hs : NoiseHandshake} {x : NoiseSpec.HandshakeState} (hrel : HsRel hs x)
    (hI : hs.initiator = false) (hm : hs.msgIndex = 1) (eph : KeyPair) (pt : Bytes) :
    let ssStatic := mixKey64 P (symmetricMixHash P hs.ss eph.pub.toList)
      (dhBytes P eph.priv hs.re)
    let ssPayload := mixKey64 P (sealState P ssStatic hs.sPub.toList) (dhBytes P hs.s hs.re)
    x.writeMessage (noxSuite P) (absPair eph) pt =
      some (eph.pub.toList ++ sealBytes P ssStatic hs.sPub.toList ++ sealBytes P ssPayload pt,
        { x with
          e := some (absPair eph)
          sym := absSym (sealState P ssPayload pt)
          patterns := NoiseSpec.patternXX.drop 2
          dhs := x.dhs ++ [(hs.re.toList, dhBytes P eph.priv hs.re),
            (hs.re.toList, dhBytes P hs.s hs.re)] }) := by
  intro ssStatic ssPayload
  have hkeys := hrel.keys
  simp only [KeysRel, hI, hm] at hkeys
  have hpat : x.patterns = NoiseSpec.patternXX.drop 1 := by
    rw [hrel.patterns, hm]
  have hrole : x.initiator = false := by
    rw [hrel.role, hI]
  simp only [NoiseSpec.HandshakeState.writeMessage, hpat, NoiseSpec.patternXX, hrole,
    List.drop_succ_cons, List.drop_zero, if_true,
    NoiseSpec.HandshakeState.writeTokens, NoiseSpec.HandshakeState.writeToken,
    NoiseSpec.HandshakeState.mixToken, NoiseSpec.HandshakeState.mixDh, hkeys.2,
    hrel.sym, absSym_mixHash, absPair, suite_dh, absSym_mixKey, hrel.pub]
  rw [absSym_encryptAndHash (by exact zero_lt_uint64Max)]
  simp only [absSym_mixKey, suite_dh, hkeys.1, Bool.false_eq_true, if_false]
  rw [absSym_encryptAndHash (by exact zero_lt_uint64Max)]
  simp [ssStatic, ssPayload]

/-- `-> s, se` on the interpreter's side. -/
theorem writeMessage_s_se
    {hs : NoiseHandshake} {x : NoiseSpec.HandshakeState} (hrel : HsRel hs x)
    (hI : hs.initiator = true) (hm : hs.msgIndex = 2) (eph : KeyPair) (pt : Bytes) :
    let ssPayload := mixKey64 P (sealState P hs.ss hs.sPub.toList) (dhBytes P hs.s hs.re)
    x.writeMessage (noxSuite P) (absPair eph) pt =
      some (sealBytes P hs.ss hs.sPub.toList ++ sealBytes P ssPayload pt,
        { x with
          sym := absSym (sealState P ssPayload pt)
          patterns := []
          dhs := x.dhs ++ [(hs.re.toList, dhBytes P hs.s hs.re)] }) := by
  intro ssPayload
  have hkeys := hrel.keys
  simp only [KeysRel, hI, hm] at hkeys
  have hpat : x.patterns = NoiseSpec.patternXX.drop 2 := by
    rw [hrel.patterns, hm]
  have hrole : x.initiator = true := by
    rw [hrel.role, hI]
  simp only [NoiseSpec.HandshakeState.writeMessage, hpat, NoiseSpec.patternXX, hrole,
    List.drop_succ_cons, List.drop_zero, if_true,
    NoiseSpec.HandshakeState.writeTokens, NoiseSpec.HandshakeState.writeToken, hrel.sym, hrel.pub]
  rw [absSym_encryptAndHash hrel.nonce]
  simp only [NoiseSpec.HandshakeState.mixToken, NoiseSpec.HandshakeState.mixDh, hkeys.2.1,
    absSym_mixKey, suite_dh, hkeys.1, if_true]
  rw [absSym_encryptAndHash (by exact zero_lt_uint64Max)]
  simp [ssPayload]

/-- `write_msg0` against `-> e`. -/
theorem writeMsg0_refines
    {hs : NoiseHandshake} {x : NoiseSpec.HandshakeState} (hrel : HsRel hs x)
    (hI : hs.initiator = true) (hm : hs.msgIndex = 0)
    (call : HsCall) {b : Buf} (hb : b.len = b.bytes.length)
    (hp : b.bytes.length ≤ noxMaxMsgLen) (outLen : Nat) :
    Refines hs (32 + b.bytes.length > outLen) x
      (hsTurn (writeMsg0 P call b outLen) hs)
      (x.writeMessage (noxSuite P) (absPair call.eph) b.bytes) := by
  by_cases hfit : 32 + b.bytes.length > outLen
  · exact refines_of_limit hfit
      (hsFails_bind_error (hsReject_error (by omega) .proto hs)) _
  · rw [hsTurn_ok (writeMsg0_ok call hrel.nonce hb hp (by omega)),
      writeMessage_e hrel hI hm]
    have hkeys := hrel.keys
    simp only [KeysRel, hI, hm] at hkeys
    have hk : hs.ss.cs.hasKey = false := by simpa [hm] using hrel.keyed
    refine ⟨_, rfl, ?_, rfl⟩
    exact
      { sym := rfl, role := hrel.role, patterns := by simp [hm], pub := hrel.pub
        notSplit := hrel.notSplit, notFailed := hrel.notFailed
        keyed := by simp [hm, hk]
        nonce := by simpa [sealState_n, hk] using hrel.nonce
        keys := by simp [KeysRel, hI, hm, hkeys, absPair] }

/-- `write_msg1` against `<- e, ee, s, es`. -/
theorem writeMsg1_refines
    {hs : NoiseHandshake} {x : NoiseSpec.HandshakeState} (hrel : HsRel hs x)
    (hI : hs.initiator = false) (hm : hs.msgIndex = 1)
    (call : HsCall) {b : Buf} (hb : b.len = b.bytes.length)
    (hp : b.bytes.length ≤ noxMaxMsgLen) (outLen : Nat) :
    Refines hs (96 + b.bytes.length > outLen ∨ ¬ call.alloc1.Ok ∨ ¬ call.alloc2.Ok) x
      (hsTurn (writeMsg1 P call b outLen) hs)
      (x.writeMessage (noxSuite P) (absPair call.eph) b.bytes) := by
  by_cases hfit : 96 + b.bytes.length > outLen
  · exact refines_of_limit (.inl hfit)
      (hsFails_bind_error (hsReject_error (by omega) .proto hs)) _
  have hfit' : ¬ 32 + 32 + 16 + b.len + 16 > outLen := by omega
  have hspec := writeMessage_e_ee_s_es (P := P) hrel hI hm call.eph b.bytes
  cases hee : noiseDh P call.eph.priv hs.re with
  | error err =>
      have hfail : HsFails (writeMsg1 P call b outLen hs) := by
        refine hsFails_bind_ok (hsReject_ok hfit' .proto hs) ?_
        refine hsFails_bind_ok (hsSendEphemeral_ok P call.eph hs) ?_
        exact hsFails_bind_error (hsMixDh_error hee)
      refine refines_of_zeroDh hfail ?_
      intro out x' hx'
      rw [hspec, Option.some.injEq, Prod.mk.injEq] at hx'
      exact ⟨_, _, List.mem_cons_self, by rw [← hx'.2], noiseDh_error hee⟩
  | ok ee =>
      by_cases ha1 : call.alloc1.Ok
      swap
      · refine refines_of_limit (.inr (.inl ha1)) ?_ _
        refine hsFails_bind_ok (hsReject_ok hfit' .proto hs) ?_
        refine hsFails_bind_ok (hsSendEphemeral_ok P call.eph hs) ?_
        exact hsFails_bind_error (hsMixDh_alloc ha1 hee)
      cases hes : noiseDh P hs.s hs.re with
      | error err =>
          have hfail : HsFails (writeMsg1 P call b outLen hs) := by
            refine hsFails_bind_ok (hsReject_ok hfit' .proto hs) ?_
            refine hsFails_bind_ok (hsSendEphemeral_ok P call.eph hs) ?_
            refine hsFails_bind_ok (hsMixDh_ok ha1 hee) ?_
            refine hsFails_bind_ok (hsEncrypt_ok rfl rfl zero_lt_uint64Max (by simp [noxMaxMsgLen])) ?_
            exact hsFails_bind_error (hsMixDh_error hes)
          refine refines_of_zeroDh hfail ?_
          intro out x' hx'
          rw [hspec, Option.some.injEq, Prod.mk.injEq] at hx'
          exact ⟨_, _, List.mem_cons_of_mem _ List.mem_cons_self, by rw [← hx'.2],
            noiseDh_error hes⟩
      | ok es =>
          by_cases ha2 : call.alloc2.Ok
          swap
          · refine refines_of_limit (.inr (.inr ha2)) ?_ _
            refine hsFails_bind_ok (hsReject_ok hfit' .proto hs) ?_
            refine hsFails_bind_ok (hsSendEphemeral_ok P call.eph hs) ?_
            refine hsFails_bind_ok (hsMixDh_ok ha1 hee) ?_
            refine hsFails_bind_ok (hsEncrypt_ok rfl rfl zero_lt_uint64Max (by simp [noxMaxMsgLen])) ?_
            exact hsFails_bind_error (hsMixDh_alloc ha2 hes)
          rw [hsTurn_ok (writeMsg1_ok ha1 ha2 hee hes hb hp (by omega)), hspec,
            noiseDh_ok_iff hee, noiseDh_ok_iff hes]
          refine ⟨_, rfl, ?_, rfl⟩
          exact
            { sym := rfl, role := hrel.role, patterns := by simp [hm], pub := hrel.pub
              notSplit := hrel.notSplit, notFailed := hrel.notFailed
              keyed := by simp [hm, msg1Payload]
              nonce := by
                simp only [sealState_n, msg1Payload, mixKey64_hasKey, mixKey64_n, if_true]
                decide
              keys := by simp [KeysRel, hI, hm, absPair] }

/-- `write_msg2` against `-> s, se`. -/
theorem writeMsg2_refines
    {hs : NoiseHandshake} {x : NoiseSpec.HandshakeState} (hrel : HsRel hs x)
    (hI : hs.initiator = true) (hm : hs.msgIndex = 2)
    (call : HsCall) {b : Buf} (hb : b.len = b.bytes.length)
    (hp : b.bytes.length ≤ noxMaxMsgLen) (outLen : Nat) :
    Refines hs (64 + b.bytes.length > outLen ∨ ¬ call.alloc1.Ok) x
      (hsTurn (writeMsg2 P call b outLen) hs)
      (x.writeMessage (noxSuite P) (absPair call.eph) b.bytes) := by
  by_cases hfit : 64 + b.bytes.length > outLen
  · exact refines_of_limit (.inl hfit)
      (hsFails_bind_error (hsReject_error (by omega) .proto hs)) _
  have hfit' : ¬ 32 + 16 + b.len + 16 > outLen := by omega
  have hspec := writeMessage_s_se (P := P) hrel hI hm call.eph b.bytes
  have hkeys := hrel.keys
  simp only [KeysRel, hI, hm] at hkeys
  cases hse : noiseDh P hs.s hs.re with
  | error err =>
      have hfail : HsFails (writeMsg2 P call b outLen hs) := by
        refine hsFails_bind_ok (hsReject_ok hfit' .proto hs) ?_
        refine hsFails_bind_ok (hsEncrypt_ok rfl rfl hrel.nonce (by simp [noxMaxMsgLen])) ?_
        exact hsFails_bind_error (hsMixDh_error hse)
      refine refines_of_zeroDh hfail ?_
      intro out x' hx'
      rw [hspec, Option.some.injEq, Prod.mk.injEq] at hx'
      exact ⟨_, _, List.mem_cons_self, by rw [← hx'.2], noiseDh_error hse⟩
  | ok se =>
      by_cases ha : call.alloc1.Ok
      swap
      · refine refines_of_limit (.inr ha) ?_ _
        refine hsFails_bind_ok (hsReject_ok hfit' .proto hs) ?_
        refine hsFails_bind_ok (hsEncrypt_ok rfl rfl hrel.nonce (by simp [noxMaxMsgLen])) ?_
        exact hsFails_bind_error (hsMixDh_alloc ha hse)
      rw [hsTurn_ok (writeMsg2_ok ha hrel.nonce hse hb hp (by omega)), hspec,
        noiseDh_ok_iff hse]
      refine ⟨_, rfl, ?_, rfl⟩
      exact
        { sym := rfl, role := hrel.role, patterns := by simp [hm, NoiseSpec.patternXX]
          pub := hrel.pub
          notSplit := hrel.notSplit, notFailed := hrel.notFailed
          keyed := by simp [hm, msg2Payload]
          nonce := by
            simp only [sealState_n, msg2Payload, mixKey64_hasKey, mixKey64_n, if_true]
            decide
          keys := by simp [KeysRel, hI, hm, hkeys] }

theorem openBytes_length
    {ss : SymmetricState} (hk : ss.cs.hasKey = true) {ct pt : Bytes}
    (h : openBytes P ss ct = some pt) :
    ct.length = pt.length + 16 := by
  unfold openBytes at h
  rw [if_pos hk] at h
  split at h
  · cases h
  · exact P.aeadDecrypt_length _ _ _ _ _ h

/-- Within the size limits a field opens exactly as `openBytes` says. -/
theorem hsDecrypt_open
    {hs : NoiseHandshake} {ct pt : Bytes} {outCap : Nat}
    (hcap : ct.length - (if hs.ss.cs.hasKey then 16 else 0) ≤ outCap)
    (hmax : ct.length ≤ noiseMaxPayloadLen)
    (h : openBytes P hs.ss ct = some pt) :
    hsDecrypt P ct outCap hs = .ok pt { hs with ss := openState P hs.ss ct } := by
  have hmax' : ¬ ct.length > noiseMaxPayloadLen := by omega
  cases hk : hs.ss.cs.hasKey with
  | false =>
      simp only [hk, Bool.false_eq_true, if_false] at hcap
      have hcap' : ¬ ct.length > outCap := by omega
      simp only [openBytes, hk, Bool.false_eq_true, if_false, Option.some.injEq] at h
      subst h
      simp [hsDecrypt, symmetricDecryptAndHash, cipherDecrypt, hk, hcap', hmax', openState]
  | true =>
      have hlen := openBytes_length hk h
      simp only [hk, if_true] at hcap
      have hmac : ¬ ct.length < noxMacLen := by simp [noxMacLen]; omega
      have hcap' : ¬ ct.length - noxMacLen > outCap := by simp only [noxMacLen]; omega
      have hn : ¬ hs.ss.cs.n ≥ uint64Max := by
        intro hn
        simp [openBytes, hk, hn] at h
      have hdec : P.aeadDecrypt hs.ss.cs.k (encodeNonce hs.ss.cs.n) hs.ss.h.toList ct = some pt := by
        simpa [openBytes, hk, hn] using h
      have hn' : ¬ uint64Max ≤ hs.ss.cs.n := hn
      simp [hsDecrypt, symmetricDecryptAndHash, cipherDecrypt, hk, hcap', hmax', hmac, hn', hdec,
        openState]

theorem cipherDecrypt_none
    {ss : SymmetricState} {ct : Bytes}
    (h : ct.length > noiseMaxPayloadLen ∨ openBytes P ss ct = none) :
    (cipherDecrypt P ss.cs ss.h.toList (.data ct) true).1 = none := by
  by_cases hmax : ct.length > noiseMaxPayloadLen
  · simp [cipherDecrypt, hmax]
  · have hopen := h.resolve_left hmax
    cases hk : ss.cs.hasKey with
    | false =>
        simp [openBytes, hk] at hopen
    | true =>
        by_cases hmac : ct.length < noxMacLen
        · simp [cipherDecrypt, hmax, hk, hmac]
        · by_cases hn : uint64Max ≤ ss.cs.n
          · simp [cipherDecrypt, hmax, hk, hmac, hn]
          · have hd : P.aeadDecrypt ss.cs.k (encodeNonce ss.cs.n) ss.h.toList ct = none := by
              simpa [openBytes, hk, hn] using hopen
            simp [cipherDecrypt, hmax, hk, hmac, hn, hd]

/-- A field that does not open, or is beyond the limits, makes the read fail. -/
theorem hsDecrypt_fails
    {hs : NoiseHandshake} {ct : Bytes} {outCap : Nat}
    (h : ct.length - (if hs.ss.cs.hasKey then 16 else 0) > outCap ∨
      ct.length > noiseMaxPayloadLen ∨ openBytes P hs.ss ct = none) :
    HsFails (hsDecrypt P ct outCap hs) := by
  have hfail : (symmetricDecryptAndHash P hs.ss ct outCap).1 = none := by
    unfold symmetricDecryptAndHash
    split
    · rfl
    · split
      · rfl
      · split
        · rfl
        · rename_i h1 h2 h3
          have hcap : ¬ ct.length - (if hs.ss.cs.hasKey then 16 else 0) > outCap := by
            cases hk : hs.ss.cs.hasKey <;> simp_all [noxMacLen]
          have hnone := cipherDecrypt_none (h.resolve_left hcap)
          split
          · rfl
          · rename_i hres
            rw [hres] at hnone
            cases hnone
  unfold HsFails hsDecrypt
  split
  · exact ⟨_, _, rfl⟩
  · rename_i hres
    rw [hres] at hfail
    cases hfail

theorem hsFails_bind
    {α β : Type} {y : HsM α} {f : α → HsM β} {hs : NoiseHandshake}
    (h : HsFails (y hs)) :
    HsFails ((y >>= f) hs) := by
  obtain ⟨err, hs', h⟩ := h
  exact hsFails_bind_error h

/-- `-> e` on the interpreter's receiving side. -/
theorem readMessage_e
    {hs : NoiseHandshake} {x : NoiseSpec.HandshakeState} (hrel : HsRel hs x)
    (hR : hs.initiator = false) (hm : hs.msgIndex = 0) (msg : Bytes) (hlen : 32 ≤ msg.length) :
    let ssPayload := symmetricMixHash P hs.ss (Block.ofBytes 32 msg).toList
    x.readMessage (noxSuite P) msg =
      (openBytes P ssPayload (msg.drop 32)).map fun pt =>
        (pt, { x with
          re := some (Block.ofBytes 32 msg).toList
          sym := absSym (openState P ssPayload (msg.drop 32))
          patterns := NoiseSpec.patternXX.drop 1 }) := by
  intro ssPayload
  have hpat : x.patterns = NoiseSpec.patternXX := by
    rw [hrel.patterns, hm]
    rfl
  have hrole : x.initiator = false := by
    rw [hrel.role, hR]
  have hdh : (noxSuite P).dhLen = 32 := rfl
  have hlen' : ¬ msg.length < 32 := by omega
  simp only [NoiseSpec.HandshakeState.readMessage, hpat, NoiseSpec.patternXX, hrole,
    NoiseSpec.HandshakeState.readTokens, NoiseSpec.HandshakeState.readToken, hdh, hlen',
    if_false, hrel.sym, Bool.true_eq_false,
    ← Block.toList_ofBytes_of_le hlen, absSym_mixHash, absSym_decryptAndHash]
  cases openBytes P ssPayload (msg.drop 32) with
  | none =>
      simp
  | some pt =>
      simp [ssPayload]

/-- `<- e, ee, s, es` on the interpreter's receiving side. -/
theorem readMessage_e_ee_s_es
    {hs : NoiseHandshake} {x : NoiseSpec.HandshakeState} (hrel : HsRel hs x)
    (hI : hs.initiator = true) (hm : hs.msgIndex = 1) (msg : Bytes) (hlen : 80 ≤ msg.length) :
    let re := Block.ofBytes 32 msg
    let ssStatic := mixKey64 P (symmetricMixHash P hs.ss re.toList) (dhBytes P hs.e re)
    let ctStatic := (msg.drop 32).take 48
    x.readMessage (noxSuite P) msg =
      (openBytes P ssStatic ctStatic).bind fun rs =>
        let ssPayload := mixKey64 P (openState P ssStatic ctStatic)
          (dhBytes P hs.e (Block.ofBytes 32 rs))
        (openBytes P ssPayload (msg.drop 80)).map fun pt =>
          (pt, { x with
            re := some re.toList, rs := some rs
            sym := absSym (openState P ssPayload (msg.drop 80))
            patterns := NoiseSpec.patternXX.drop 2
            dhs := x.dhs ++ [(re.toList, dhBytes P hs.e re),
              (rs, dhBytes P hs.e (Block.ofBytes 32 rs))] }) := by
  intro re ssStatic ctStatic
  have hkeys := hrel.keys
  simp only [KeysRel, hI, hm] at hkeys
  obtain ⟨-, kp, he, hkp⟩ := hkeys
  have hpat : x.patterns = NoiseSpec.patternXX.drop 1 := by
    rw [hrel.patterns, hm]
  have hrole : x.initiator = true := by
    rw [hrel.role, hI]
  have hdh : (noxSuite P).dhLen = 32 := rfl
  have htag : (noxSuite P).tagLen = 16 := rfl
  have hlen' : ¬ msg.length < 32 := by omega
  have hlen48 : ¬ (msg.drop 32).length < 48 := by
    rw [List.length_drop]
    omega
  have hkey : ∀ ss ikm, (absSym (mixKey64 P ss ikm)).cs.k.isSome = true := by
    intro ss ikm
    rfl
  have hsuite : ∀ rs, (noxSuite P).dh hs.e.toList rs = dhBytes P hs.e (Block.ofBytes 32 rs) := by
    intro rs
    simp [noxSuite, Block.ofBytes_toList]
  simp only [NoiseSpec.HandshakeState.readMessage, hpat, NoiseSpec.patternXX, hrole,
    List.drop_succ_cons, List.drop_zero, Bool.false_eq_true, if_false, if_true,
    NoiseSpec.HandshakeState.readTokens, NoiseSpec.HandshakeState.readToken, hdh, htag, hlen',
    ← Block.toList_ofBytes_of_le (show 32 ≤ msg.length by omega),
    NoiseSpec.HandshakeState.mixToken, NoiseSpec.HandshakeState.mixDh, he, hkp,
    hrel.sym, absSym_mixHash, suite_dh, absSym_mixKey, hkey, hlen48, absSym_decryptAndHash]
  cases openBytes P ssStatic ctStatic with
  | none =>
      simp
  | some rs =>
      simp only [Option.map_some, Option.bind_some, hkp, hsuite, absSym_mixKey, List.drop_drop,
        if_true]
      rw [absSym_decryptAndHash]
      cases openBytes P (mixKey64 P (openState P ssStatic ctStatic)
          (dhBytes P hs.e (Block.ofBytes 32 rs))) (msg.drop 80) with
      | none =>
          simp
      | some pt =>
          simp [ssStatic, ctStatic, re]

/-- `-> s, se` on the interpreter's receiving side. -/
theorem readMessage_s_se
    {hs : NoiseHandshake} {x : NoiseSpec.HandshakeState} (hrel : HsRel hs x)
    (hR : hs.initiator = false) (hm : hs.msgIndex = 2) (msg : Bytes) (hlen : 48 ≤ msg.length) :
    let ctStatic := msg.take 48
    x.readMessage (noxSuite P) msg =
      (openBytes P hs.ss ctStatic).bind fun rs =>
        let ssPayload := mixKey64 P (openState P hs.ss ctStatic)
          (dhBytes P hs.e (Block.ofBytes 32 rs))
        (openBytes P ssPayload (msg.drop 48)).map fun pt =>
          (pt, { x with
            rs := some rs
            sym := absSym (openState P ssPayload (msg.drop 48))
            patterns := []
            dhs := x.dhs ++ [(rs, dhBytes P hs.e (Block.ofBytes 32 rs))] }) := by
  intro ctStatic
  have hkeys := hrel.keys
  simp only [KeysRel, hR, hm] at hkeys
  obtain ⟨kp, he, hkp⟩ := hkeys
  have hpat : x.patterns = NoiseSpec.patternXX.drop 2 := by
    rw [hrel.patterns, hm]
  have hrole : x.initiator = false := by
    rw [hrel.role, hR]
  have hdh : (noxSuite P).dhLen = 32 := rfl
  have htag : (noxSuite P).tagLen = 16 := rfl
  have hlen48 : ¬ msg.length < 48 := by omega
  have hk : hs.ss.cs.hasKey = true := by simpa [hm] using hrel.keyed
  have hkey : (absSym hs.ss).cs.k.isSome = true := by
    simp [absSym, hk]
  have hsuite : ∀ rs, (noxSuite P).dh hs.e.toList rs = dhBytes P hs.e (Block.ofBytes 32 rs) := by
    intro rs
    simp [noxSuite, Block.ofBytes_toList]
  simp only [NoiseSpec.HandshakeState.readMessage, hpat, NoiseSpec.patternXX, hrole,
    List.drop_succ_cons, List.drop_zero, Bool.true_eq_false, if_false, if_true,
    NoiseSpec.HandshakeState.readTokens, NoiseSpec.HandshakeState.readToken, hdh, htag,
    NoiseSpec.HandshakeState.mixToken, NoiseSpec.HandshakeState.mixDh, he,
    hrel.sym, hkey, hlen48, absSym_decryptAndHash]
  cases openBytes P hs.ss ctStatic with
  | none =>
      simp
  | some rs =>
      simp only [Option.map_some, Option.bind_some, hkp, hsuite, absSym_mixKey,
        Bool.false_eq_true, if_false]
      rw [absSym_decryptAndHash]
      cases openBytes P (mixKey64 P (openState P hs.ss ctStatic)
          (dhBytes P hs.e (Block.ofBytes 32 rs))) (msg.drop 48) with
      | none =>
          simp
      | some pt =>
          simp [ctStatic]

/-- A message that is too short for its tokens. -/
theorem readMessage_short
    {hs : NoiseHandshake} {x : NoiseSpec.HandshakeState} (hrel : HsRel hs x)
    {msg : Bytes}
    (h : (hs.initiator = false ∧ hs.msgIndex = 0 ∧ msg.length < 32) ∨
      (hs.initiator = true ∧ hs.msgIndex = 1 ∧ msg.length < 80) ∨
      (hs.initiator = false ∧ hs.msgIndex = 2 ∧ msg.length < 48)) :
    x.readMessage (noxSuite P) msg = none := by
  have hdh : (noxSuite P).dhLen = 32 := rfl
  have htag : (noxSuite P).tagLen = 16 := rfl
  have hpat := hrel.patterns
  have hrole := hrel.role
  rcases h with ⟨hi, hm, hlen⟩ | ⟨hi, hm, hlen⟩ | ⟨hi, hm, hlen⟩
  · rw [hm] at hpat
    rw [hi] at hrole
    simp [NoiseSpec.HandshakeState.readMessage, hpat, NoiseSpec.patternXX, hrole,
      NoiseSpec.HandshakeState.readTokens, NoiseSpec.HandshakeState.readToken, hdh, hlen]
  · rw [hm] at hpat
    rw [hi] at hrole
    have hkeys := hrel.keys
    simp only [KeysRel, hi, hm] at hkeys
    obtain ⟨-, kp, he, -⟩ := hkeys
    have hkey : ∀ ss ikm, (absSym (mixKey64 P ss ikm)).cs.k.isSome = true := by
      intro ss ikm
      rfl
    by_cases h32 : msg.length < 32
    · simp [NoiseSpec.HandshakeState.readMessage, hpat, NoiseSpec.patternXX, hrole,
        NoiseSpec.HandshakeState.readTokens, NoiseSpec.HandshakeState.readToken, hdh, h32]
    · have h48 : msg.length - 32 < 48 := by omega
      simp [NoiseSpec.HandshakeState.readMessage, hpat, NoiseSpec.patternXX, hrole,
        NoiseSpec.HandshakeState.readTokens, NoiseSpec.HandshakeState.readToken, hdh, htag, h32,
        NoiseSpec.HandshakeState.mixToken, NoiseSpec.HandshakeState.mixDh, he, hrel.sym,
        absSym_mixHash, absSym_mixKey, hkey, h48]
  · rw [hm] at hpat
    rw [hi] at hrole
    have hk : hs.ss.cs.hasKey = true := by simpa [hm] using hrel.keyed
    have hkey : (absSym hs.ss).cs.k.isSome = true := by
      simp [absSym, hk]
    simp [NoiseSpec.HandshakeState.readMessage, hpat, NoiseSpec.patternXX, hrole,
      NoiseSpec.HandshakeState.readTokens, NoiseSpec.HandshakeState.readToken, hdh, htag,
      hrel.sym, hkey, hlen]

@[simp] theorem openState_hasKey
    (ss : SymmetricState) (ct : Bytes) :
    (openState P ss ct).cs.hasKey = ss.cs.hasKey := by
  unfold openState
  rw [symmetricMixHash_cs]
  split <;> simp

theorem openState_n
    (ss : SymmetricState) (ct : Bytes) :
    (openState P ss ct).cs.n = if ss.cs.hasKey then ss.cs.n + 1 else ss.cs.n := by
  unfold openState
  rw [symmetricMixHash_cs]
  split <;> rfl

/-- `read_msg0` against `-> e`. -/
theorem readMsg0_refines
    {hs : NoiseHandshake} {x : NoiseSpec.HandshakeState} (hrel : HsRel hs x)
    (hR : hs.initiator = false) (hm : hs.msgIndex = 0) (msg : Bytes) (outCap : Nat) :
    Refines hs ((msg.drop 32).length > outCap ∨ (msg.drop 32).length > noiseMaxPayloadLen) x
      (hsTurn (readMsg0 P msg outCap) hs) (x.readMessage (noxSuite P) msg) := by
  by_cases hlen : msg.length < 32
  · exact refines_of_reject (hsFails_bind_error (hsReject_error hlen .proto hs))
      (readMessage_short hrel (.inl ⟨hR, hm, hlen⟩))
  have hk : hs.ss.cs.hasKey = false := by simpa [hm] using hrel.keyed
  have hkeys := hrel.keys
  simp only [KeysRel, hR, hm] at hkeys
  by_cases hlimit : (msg.drop 32).length > outCap ∨ (msg.drop 32).length > noiseMaxPayloadLen
  · refine refines_of_limit hlimit ?_ _
    refine hsFails_bind_ok (hsReject_ok hlen .proto hs) ?_
    refine hsFails_bind_ok (hsRecvEphemeral_ok P _ hs) ?_
    refine hsDecrypt_fails ?_
    rcases hlimit with h | h
    · exact .inl (by simpa [hk] using h)
    · exact .inr (.inl h)
  · have hopen : openBytes P (symmetricMixHash P hs.ss (Block.ofBytes 32 msg).toList)
        (msg.drop 32) = some (msg.drop 32) := by
      simp [openBytes, hk]
    have hcode : readMsg0 P msg outCap hs =
        .ok (msg.drop 32) { hs with
          re := Block.ofBytes 32 msg
          ss := openState P (symmetricMixHash P hs.ss (Block.ofBytes 32 msg).toList)
            (msg.drop 32) } := by
      unfold readMsg0
      refine hsM_bind_ok (hsReject_ok hlen .proto hs) ?_
      refine hsM_bind_ok (hsRecvEphemeral_ok P _ hs) ?_
      refine hsDecrypt_open ?_ (by omega) hopen
      simp only [symmetricMixHash_cs, hk]
      simp only [Bool.false_eq_true, if_false]
      omega
    rw [hsTurn_ok hcode, readMessage_e hrel hR hm msg (by omega), hopen]
    refine ⟨_, rfl, ?_, rfl⟩
    exact
      { sym := rfl, role := hrel.role, patterns := by simp [hm], pub := hrel.pub
        notSplit := hrel.notSplit, notFailed := hrel.notFailed
        keyed := by simp [hm, hk]
        nonce := by simpa [openState_n, hk] using hrel.nonce
        keys := by simp [KeysRel, hR, hm, hkeys] }

/-- A sealed static key that opens is taken over into `rs`. -/
theorem hsRecvStatic_open
    {hs : NoiseHandshake} {ct rs : Bytes} (hk : hs.ss.cs.hasKey = true) (hlen : ct.length = 48)
    (h : openBytes P hs.ss ct = some rs) :
    hsRecvStatic P ct hs =
      .ok () { hs with rs := Block.ofBytes 32 rs, ss := openState P hs.ss ct } := by
  unfold hsRecvStatic
  refine hsM_bind_ok (hsDecrypt_open ?_ ?_ h) rfl
  · simp [hk, hlen]
  · simp [hlen, noiseMaxPayloadLen, noxMaxMsgLen, noxMacLen]

theorem hsRecvStatic_fails
    {hs : NoiseHandshake} {ct : Bytes} (h : openBytes P hs.ss ct = none) :
    HsFails (hsRecvStatic P ct hs) := by
  unfold hsRecvStatic
  exact hsFails_bind (hsDecrypt_fails (.inr (.inr h)))

/-- The limits on a sealed payload in a read. -/
def PayloadLimit (payload : Bytes) (outCap : Nat) : Prop :=
  payload.length - 16 > outCap ∨ payload.length > noiseMaxPayloadLen

theorem hsDecrypt_limit
    {hs : NoiseHandshake} (hk : hs.ss.cs.hasKey = true) {payload : Bytes} {outCap : Nat}
    (h : PayloadLimit payload outCap) :
    HsFails (hsDecrypt P payload outCap hs) := by
  refine hsDecrypt_fails ?_
  rcases h with h | h
  · exact .inl (by simpa [hk] using h)
  · exact .inr (.inl h)

theorem hsDecrypt_within
    {hs : NoiseHandshake} (hk : hs.ss.cs.hasKey = true) {payload pt : Bytes} {outCap : Nat}
    (h : ¬ PayloadLimit payload outCap) (hopen : openBytes P hs.ss payload = some pt) :
    hsDecrypt P payload outCap hs = .ok pt { hs with ss := openState P hs.ss payload } := by
  unfold PayloadLimit at h
  refine hsDecrypt_open ?_ (by omega) hopen
  simp only [hk, if_true]
  omega

theorem hsWipeE_fails
    {y : HsM Bytes} {hs : NoiseHandshake} (h : HsFails (y hs)) :
    HsFails (hsWipeE y hs) := by
  unfold hsWipeE
  exact hsFails_bind h

/-- `read_msg1` against `<- e, ee, s, es`. -/
theorem readMsg1_refines
    {hs : NoiseHandshake} {x : NoiseSpec.HandshakeState} (hrel : HsRel hs x)
    (hI : hs.initiator = true) (hm : hs.msgIndex = 1)
    (call : HsCall) (msg : Bytes) (outCap : Nat) :
    Refines hs (PayloadLimit (msg.drop 80) outCap ∨ ¬ call.alloc1.Ok ∨ ¬ call.alloc2.Ok) x
      (hsTurn (hsWipeE (readMsg1 P call msg outCap)) hs) (x.readMessage (noxSuite P) msg) := by
  by_cases hlen : msg.length < 32 + 32 + 16
  · exact refines_of_reject (hsWipeE_fails (hsFails_bind_error (hsReject_error hlen .proto hs)))
      (readMessage_short hrel (.inr (.inl ⟨hI, hm, hlen⟩)))
  have hspec := readMessage_e_ee_s_es (P := P) hrel hI hm msg (by omega)
  dsimp only at hspec
  have hct : ((msg.drop 32).take 48).length = 48 := by
    rw [List.length_take, List.length_drop]
    omega
  cases hee : noiseDh P hs.e (Block.ofBytes 32 msg) with
  | error err =>
      refine refines_of_zeroDh (hsWipeE_fails ?_) ?_
      · refine hsFails_bind_ok (hsReject_ok hlen .proto hs) ?_
        refine hsFails_bind_ok (hsRecvEphemeral_ok P _ hs) ?_
        exact hsFails_bind_error (hsMixDh_error hee)
      · intro out x' hx'
        simp only [hspec, Option.bind_eq_some_iff, Option.map_eq_some_iff, Prod.mk.injEq] at hx'
        obtain ⟨rs, -, pt, -, -, hx'⟩ := hx'
        exact ⟨_, _, List.mem_cons_self, by rw [← hx'], noiseDh_error hee⟩
  | ok ee =>
      by_cases ha1 : call.alloc1.Ok
      swap
      · refine refines_of_limit (.inr (.inl ha1)) (hsWipeE_fails ?_) _
        refine hsFails_bind_ok (hsReject_ok hlen .proto hs) ?_
        refine hsFails_bind_ok (hsRecvEphemeral_ok P _ hs) ?_
        exact hsFails_bind_error (hsMixDh_alloc ha1 hee)
      rw [noiseDh_ok_iff hee] at hspec
      cases hstatic : openBytes P (mixKey64 P (symmetricMixHash P hs.ss
          (Block.ofBytes 32 msg).toList) ee.toList) ((msg.drop 32).take 48) with
      | none =>
          refine refines_of_reject (hsWipeE_fails ?_) (by simp only [hspec, hstatic]; rfl)
          refine hsFails_bind_ok (hsReject_ok hlen .proto hs) ?_
          refine hsFails_bind_ok (hsRecvEphemeral_ok P _ hs) ?_
          refine hsFails_bind_ok (hsMixDh_ok ha1 hee) ?_
          exact hsFails_bind (hsRecvStatic_fails hstatic)
      | some rs =>
          simp only [hstatic, Option.bind_some] at hspec
          have hrs : (Block.ofBytes 32 rs).toList = rs := by
            have h := openBytes_length rfl hstatic
            rw [Block.toList_ofBytes_of_le (by omega), List.take_of_length_le (by omega)]
          -- the second half of the message, from the state with `rs` on
          have hhalf : readMsg1 P call msg outCap hs =
              (do
                hsMixDh P call.alloc2 (·.e) (·.rs)
                hsDecrypt P (msg.drop 80) outCap : HsM Bytes)
              { hs with
                re := Block.ofBytes 32 msg, rs := Block.ofBytes 32 rs
                ss := openState P (mixKey64 P (symmetricMixHash P hs.ss
                  (Block.ofBytes 32 msg).toList) ee.toList) ((msg.drop 32).take 48) } := by
            refine hsM_bind_ok (hsReject_ok hlen .proto hs) ?_
            refine hsM_bind_ok (hsRecvEphemeral_ok P _ hs) ?_
            refine hsM_bind_ok (hsMixDh_ok ha1 hee) ?_
            exact hsM_bind_ok (hsRecvStatic_open rfl hct hstatic) rfl
          cases hes : noiseDh P hs.e (Block.ofBytes 32 rs) with
          | error err =>
              refine refines_of_zeroDh (hsWipeE_fails ?_) ?_
              · rw [hhalf]
                exact hsFails_bind_error (hsMixDh_error hes)
              · intro out x' hx'
                simp only [hspec, Option.map_eq_some_iff, Prod.mk.injEq] at hx'
                obtain ⟨pt, -, -, hx'⟩ := hx'
                have hzero := noiseDh_error hes
                rw [hrs] at hzero
                exact ⟨_, _, List.mem_cons_of_mem _ List.mem_cons_self, by rw [← hx'], hzero⟩
          | ok es =>
              by_cases ha2 : call.alloc2.Ok
              swap
              · refine refines_of_limit (.inr (.inr ha2)) (hsWipeE_fails ?_) _
                rw [hhalf]
                exact hsFails_bind_error (hsMixDh_alloc ha2 hes)
              rw [noiseDh_ok_iff hes] at hspec
              by_cases hlimit : PayloadLimit (msg.drop 80) outCap
              · refine refines_of_limit (.inl hlimit) (hsWipeE_fails ?_) _
                rw [hhalf]
                exact hsFails_bind_ok (hsMixDh_ok ha2 hes) (hsDecrypt_limit rfl hlimit)
              cases hpayload : openBytes P (mixKey64 P (openState P (mixKey64 P
                  (symmetricMixHash P hs.ss (Block.ofBytes 32 msg).toList) ee.toList)
                  ((msg.drop 32).take 48)) es.toList) (msg.drop 80) with
              | none =>
                  refine refines_of_reject (hsWipeE_fails ?_) (by simp only [hspec, hpayload]; rfl)
                  rw [hhalf]
                  exact hsFails_bind_ok (hsMixDh_ok ha2 hes) (hsDecrypt_fails (.inr (.inr hpayload)))
              | some pt =>
                  have hcode := hsTurn_ok (hsWipeE_ok (hhalf.trans
                    (hsM_bind_ok (hsMixDh_ok ha2 hes) (hsDecrypt_within rfl hlimit hpayload))))
                  rw [hcode, hspec, hpayload]
                  have hkeys := hrel.keys
                  simp only [KeysRel, hI, hm] at hkeys
                  refine ⟨_, rfl, ?_, rfl⟩
                  exact
                    { sym := rfl, role := hrel.role, patterns := by simp [hm], pub := hrel.pub
                      notSplit := hrel.notSplit, notFailed := hrel.notFailed
                      keyed := by simp [hm]
                      nonce := by
                        simp only [openState_n, mixKey64_hasKey, mixKey64_n, if_true]
                        decide
                      keys := by simp [KeysRel, hI, hm, hkeys, hrs] }

/-- `read_msg2` against `-> s, se`. -/
theorem readMsg2_refines
    {hs : NoiseHandshake} {x : NoiseSpec.HandshakeState} (hrel : HsRel hs x)
    (hR : hs.initiator = false) (hm : hs.msgIndex = 2)
    (call : HsCall) (msg : Bytes) (outCap : Nat) :
    Refines hs (PayloadLimit (msg.drop 48) outCap ∨ ¬ call.alloc1.Ok) x
      (hsTurn (hsWipeE (readMsg2 P call msg outCap)) hs) (x.readMessage (noxSuite P) msg) := by
  by_cases hlen : msg.length < 32 + 16
  · exact refines_of_reject (hsWipeE_fails (hsFails_bind_error (hsReject_error hlen .proto hs)))
      (readMessage_short hrel (.inr (.inr ⟨hR, hm, hlen⟩)))
  have hspec := readMessage_s_se (P := P) hrel hR hm msg (by omega)
  dsimp only at hspec
  have hct : (msg.take 48).length = 48 := by
    rw [List.length_take]
    omega
  have hk : hs.ss.cs.hasKey = true := by simpa [hm] using hrel.keyed
  cases hstatic : openBytes P hs.ss (msg.take 48) with
  | none =>
      refine refines_of_reject (hsWipeE_fails ?_) (by simp only [hspec, hstatic]; rfl)
      refine hsFails_bind_ok (hsReject_ok hlen .proto hs) ?_
      exact hsFails_bind (hsRecvStatic_fails hstatic)
  | some rs =>
      simp only [hstatic, Option.bind_some] at hspec
      have hrs : (Block.ofBytes 32 rs).toList = rs := by
        have h := openBytes_length hk hstatic
        rw [Block.toList_ofBytes_of_le (by omega), List.take_of_length_le (by omega)]
      have hhalf : readMsg2 P call msg outCap hs =
          (do
            hsMixDh P call.alloc1 (·.e) (·.rs)
            hsDecrypt P (msg.drop 48) outCap : HsM Bytes)
          { hs with
            rs := Block.ofBytes 32 rs
            ss := openState P hs.ss (msg.take 48) } := by
        refine hsM_bind_ok (hsReject_ok hlen .proto hs) ?_
        exact hsM_bind_ok (hsRecvStatic_open hk hct hstatic) rfl
      cases hse : noiseDh P hs.e (Block.ofBytes 32 rs) with
      | error err =>
          refine refines_of_zeroDh (hsWipeE_fails ?_) ?_
          · rw [hhalf]
            exact hsFails_bind_error (hsMixDh_error hse)
          · intro out x' hx'
            simp only [hspec, Option.map_eq_some_iff, Prod.mk.injEq] at hx'
            obtain ⟨pt, -, -, hx'⟩ := hx'
            have hzero := noiseDh_error hse
            rw [hrs] at hzero
            exact ⟨_, _, List.mem_cons_self, by rw [← hx'], hzero⟩
      | ok se =>
          by_cases ha : call.alloc1.Ok
          swap
          · refine refines_of_limit (.inr ha) (hsWipeE_fails ?_) _
            rw [hhalf]
            exact hsFails_bind_error (hsMixDh_alloc ha hse)
          rw [noiseDh_ok_iff hse] at hspec
          by_cases hlimit : PayloadLimit (msg.drop 48) outCap
          · refine refines_of_limit (.inl hlimit) (hsWipeE_fails ?_) _
            rw [hhalf]
            exact hsFails_bind_ok (hsMixDh_ok ha hse) (hsDecrypt_limit rfl hlimit)
          cases hpayload : openBytes P (mixKey64 P (openState P hs.ss (msg.take 48)) se.toList)
              (msg.drop 48) with
          | none =>
              refine refines_of_reject (hsWipeE_fails ?_) (by simp only [hspec, hpayload]; rfl)
              rw [hhalf]
              exact hsFails_bind_ok (hsMixDh_ok ha hse) (hsDecrypt_fails (.inr (.inr hpayload)))
          | some pt =>
              have hcode := hsTurn_ok (hsWipeE_ok (hhalf.trans
                (hsM_bind_ok (hsMixDh_ok ha hse) (hsDecrypt_within rfl hlimit hpayload))))
              rw [hcode, hspec, hpayload]
              refine ⟨_, rfl, ?_, rfl⟩
              exact
                { sym := rfl, role := hrel.role, patterns := by simp [hm, NoiseSpec.patternXX]
                  pub := hrel.pub
                  notSplit := hrel.notSplit, notFailed := hrel.notFailed
                  keyed := by simp [hm]
                  nonce := by
                    simp only [openState_n, mixKey64_hasKey, mixKey64_n, if_true]
                    decide
                  keys := by simp [KeysRel, hR, hm, hrs] }

end Messages

/-- One call of the handshake interface; a NULL payload is an empty one. -/
inductive HsOp where
  | write (call : HsCall) (payload : Buf) (outLen : Nat)
  | read (call : HsCall) (msg : Bytes) (outCap : Nat)
deriving DecidableEq

/-- What message `i` adds to its payload. -/
def msgOverhead : Nat → Nat
  | 0 => 32
  | 1 => 96
  | _ => 64

/-- Where the payload of message `i` begins. -/
def msgHeader : Nat → Nat
  | 0 => 32
  | 1 => 80
  | _ => 48

/-- The allocations that message `i` needs. -/
def HsCall.AllocsOk (call : HsCall) : Nat → Prop
  | 0 => True
  | 1 => call.alloc1.Ok ∧ call.alloc2.Ok
  | _ => call.alloc1.Ok

namespace HsOp

/-- A size limit is exceeded in message `i`. -/
def SizeLimited (i : Nat) : HsOp → Prop
  | write _ payload outLen =>
      payload.bytes.length > noiseMaxHandshakeLen ∨
        msgOverhead i + payload.bytes.length > outLen
  | read _ msg outCap =>
      (msg.drop (msgHeader i)).length - (if i = 0 then 0 else 16) > outCap ∨
        (msg.drop (msgHeader i)).length > noiseMaxPayloadLen

/-- The allocations of message `i` succeed. -/
def AllocsOk (i : Nat) : HsOp → Prop
  | write call _ _ => call.AllocsOk i
  | read call _ _ => call.AllocsOk i

/-- A size limit is exceeded or an allocation fails in message `i`. -/
def Limited (i : Nat) (op : HsOp) : Prop :=
  op.SizeLimited i ∨ ¬ op.AllocsOk i

variable (P : Primitives)

/-- The call on the object of the code. -/
def runCode : HsOp → HsM Bytes
  | write call payload outLen => handshakeWrite P call payload (some outLen)
  | read call msg outCap => handshakeRead P call (.data msg) (some outCap)

/-- The call on the interpreter's object. -/
def runSpec (x : NoiseSpec.HandshakeState) : HsOp → Option (Bytes × NoiseSpec.HandshakeState)
  | write call payload _ => x.writeMessage (noxSuite P) (absPair call.eph) payload.bytes
  | read _ msg _ => x.readMessage (noxSuite P) msg

end HsOp

section Runs

variable (P : Primitives)

/-- A run of the code, up to its first rejection. -/
def runCodeOps : List HsOp → NoiseHandshake → Option (List Bytes × NoiseHandshake)
  | [], hs => some ([], hs)
  | op :: ops, hs =>
      match op.runCode P hs with
      | .error _ _ => none
      | .ok out hs' => (runCodeOps ops hs').map fun r => (out :: r.1, r.2)

/-- A run of the interpreter, up to its first rejection. -/
def runSpecOps : List HsOp → NoiseSpec.HandshakeState →
    Option (List Bytes × NoiseSpec.HandshakeState)
  | [], x => some ([], x)
  | op :: ops, x =>
      match op.runSpec P x with
      | none => none
      | some (out, x') => (runSpecOps ops x').map fun r => (out :: r.1, r.2)

/-- `Split` of the interpreter, once no pattern is left. -/
def specSplit (x : NoiseSpec.HandshakeState) : Option (Bytes × Bytes) :=
  if x.patterns.isEmpty then some (x.sym.split (noxSuite P)) else none

/-- `handshake_split` against `Split`: the initiator sends with the first key. -/
def SplitAgrees (alloc : HkdfAlloc) (hs : NoiseHandshake) (x : NoiseSpec.HandshakeState) : Prop :=
  match handshakeSplit P alloc hs with
  | .ok session _ =>
      ∃ k1 k2, specSplit P x = some (k1, k2) ∧
        session.tx.k.toList = (if hs.initiator then k1 else k2) ∧
        session.rx.k.toList = (if hs.initiator then k2 else k1) ∧
        session.tx.n = 0 ∧ session.rx.n = 0 ∧
        session.tx.hasKey = true ∧ session.rx.hasKey = true
  | .error _ _ => ¬ alloc.Ok ∨ specSplit P x = none

variable {P}

theorem refines_weaken
    {hs : NoiseHandshake} {limit limit' : Prop} (h : limit → limit')
    {x : NoiseSpec.HandshakeState}
    {code : EStateM.Result NoxErr NoiseHandshake Bytes}
    {spec : Option (Bytes × NoiseSpec.HandshakeState)} (hr : Refines hs limit x code spec) :
    Refines hs limit' x code spec := by
  cases code with
  | ok out hs' =>
      exact hr
  | error err hs' =>
      exact hr.imp_left h

/-- A call out of turn is rejected on both sides. -/
theorem refines_out_of_turn
    {limit : Prop} {x : NoiseSpec.HandshakeState} {err : NoxErr} {hs : NoiseHandshake}
    {spec : Option (Bytes × NoiseSpec.HandshakeState)} (hspec : spec = none) :
    Refines hs limit x (.error err hs) spec := by
  refine .inr ?_
  intro out x' hx'
  rw [hspec] at hx'
  cases hx'

theorem writeMessage_out_of_turn
    {hs : NoiseHandshake} {x : NoiseSpec.HandshakeState} (hrel : HsRel hs x)
    (h : ¬ (hs.initiator = true ∧ hs.msgIndex = 0) ∧
      ¬ (hs.initiator = true ∧ hs.msgIndex = 2) ∧
      ¬ (hs.initiator = false ∧ hs.msgIndex = 1))
    (eph : NoiseSpec.KeyPair) (pt : Bytes) :
    x.writeMessage (noxSuite P) eph pt = none := by
  have hpat := hrel.patterns
  have hrole := hrel.role
  rcases hm : hs.msgIndex with _ | _ | _ | m <;> rw [hm] at hpat <;>
    cases hi : hs.initiator <;>
    simp_all [NoiseSpec.HandshakeState.writeMessage, NoiseSpec.patternXX]

theorem readMessage_out_of_turn
    {hs : NoiseHandshake} {x : NoiseSpec.HandshakeState} (hrel : HsRel hs x)
    (h : ¬ (hs.initiator = true ∧ hs.msgIndex = 1) ∧
      ¬ (hs.initiator = false ∧ hs.msgIndex = 0) ∧
      ¬ (hs.initiator = false ∧ hs.msgIndex = 2))
    (msg : Bytes) :
    x.readMessage (noxSuite P) msg = none := by
  have hpat := hrel.patterns
  have hrole := hrel.role
  rcases hm : hs.msgIndex with _ | _ | _ | m <;> rw [hm] at hpat <;>
    cases hi : hs.initiator <;>
    simp_all [NoiseSpec.HandshakeState.readMessage, NoiseSpec.patternXX]

/-- `handshake_write` against `WriteMessage`. -/
theorem handshakeWrite_refines
    {hs : NoiseHandshake} {x : NoiseSpec.HandshakeState} (hrel : HsRel hs x)
    (call : HsCall) (payload : Buf) (outLen : Nat) :
    Refines hs (HsOp.Limited hs.msgIndex (.write call payload outLen)) x
      (handshakeWrite P call payload (some outLen) hs)
      (x.writeMessage (noxSuite P) (absPair call.eph) payload.bytes) := by
  -- a NULL payload is replaced by an empty one
  obtain ⟨pl, hpl, hlen, hbytes⟩ : ∃ pl : Buf,
      (if payload.isNull then .null 0 else payload) = pl ∧
      pl.len = pl.bytes.length ∧ pl.bytes = payload.bytes := by
    cases payload with
    | null n =>
        exact ⟨.null 0, rfl, rfl, rfl⟩
    | data bs =>
        exact ⟨.data bs, rfl, rfl, rfl⟩
  simp only [handshakeWrite, hrel.notSplit, hrel.notFailed, Bool.or_self, Bool.false_eq_true,
    if_false, hpl]
  rw [← hbytes]
  by_cases hmax : pl.len > noiseMaxHandshakeLen
  · rw [if_pos hmax]
    refine .inl (.inl (.inl ?_))
    rw [← hbytes]
    omega
  · rw [if_neg hmax]
    have hp : pl.bytes.length ≤ noxMaxMsgLen := by
      have hle : noiseMaxHandshakeLen ≤ noxMaxMsgLen := by decide
      omega
    unfold writeTurn
    split
    · rename_i hI hm
      refine refines_weaken ?_ (writeMsg0_refines hrel hI hm call hlen hp outLen)
      intro h
      rw [hm]
      exact .inl (.inr (by rw [← hbytes]; exact h))
    · rename_i hI hm
      refine refines_weaken ?_ (writeMsg2_refines hrel hI hm call hlen hp outLen)
      rw [hm]
      rintro (h | h)
      · exact .inl (.inr (by rw [← hbytes]; exact h))
      · exact .inr h
    · rename_i hI hm
      refine refines_weaken ?_ (writeMsg1_refines hrel hI hm call hlen hp outLen)
      rw [hm]
      rintro (h | h)
      · exact .inl (.inr (by rw [← hbytes]; exact h))
      · exact .inr (by simp only [HsOp.AllocsOk, HsCall.AllocsOk]; tauto)
    · rename_i h0 h2 h1
      refine refines_out_of_turn (writeMessage_out_of_turn hrel ⟨?_, ?_, ?_⟩ _ _)
      · rintro ⟨hI, hm⟩
        exact h0 hI hm
      · rintro ⟨hI, hm⟩
        exact h2 hI hm
      · rintro ⟨hI, hm⟩
        exact h1 hI hm

/-- `handshake_read` against `ReadMessage`. -/
theorem handshakeRead_refines
    {hs : NoiseHandshake} {x : NoiseSpec.HandshakeState} (hrel : HsRel hs x)
    (call : HsCall) (msg : Bytes) (outCap : Nat) :
    Refines hs (HsOp.Limited hs.msgIndex (.read call msg outCap)) x
      (handshakeRead P call (.data msg) (some outCap) hs)
      (x.readMessage (noxSuite P) msg) := by
  simp only [handshakeRead, hrel.notSplit, hrel.notFailed, Bool.or_self, Bool.false_eq_true,
    if_false]
  unfold readTurn
  split
  · rename_i hI hm
    refine refines_weaken ?_ (readMsg1_refines hrel hI hm call msg outCap)
    rw [hm]
    rintro ((h | h) | h)
    · exact .inl (.inl h)
    · exact .inl (.inr h)
    · exact .inr (by simp only [HsOp.AllocsOk, HsCall.AllocsOk]; tauto)
  · rename_i hR hm
    refine refines_weaken ?_ (readMsg0_refines hrel hR hm msg outCap)
    rw [hm]
    rintro (h | h)
    · exact .inl (.inl h)
    · exact .inl (.inr h)
  · rename_i hR hm
    refine refines_weaken ?_ (readMsg2_refines hrel hR hm call msg outCap)
    rw [hm]
    rintro ((h | h) | h)
    · exact .inl (.inl h)
    · exact .inl (.inr h)
    · exact .inr h
  · rename_i h1 h0 h2
    refine refines_out_of_turn (readMessage_out_of_turn hrel ⟨?_, ?_, ?_⟩ _)
    · rintro ⟨hI, hm⟩
      exact h1 hI hm
    · rintro ⟨hR, hm⟩
      exact h0 hR hm
    · rintro ⟨hR, hm⟩
      exact h2 hR hm

theorem op_refines
    {hs : NoiseHandshake} {x : NoiseSpec.HandshakeState} (hrel : HsRel hs x) (op : HsOp) :
    Refines hs (op.Limited hs.msgIndex) x (op.runCode P hs) (op.runSpec P x) := by
  cases op with
  | write call payload outLen =>
      exact handshakeWrite_refines hrel call payload outLen
  | read call msg outCap =>
      exact handshakeRead_refines hrel call msg outCap

theorem runSpec_dhs
    {op : HsOp} {x x' : NoiseSpec.HandshakeState} {out : Bytes}
    (h : op.runSpec P x = some (out, x')) :
    x.dhs <+: x'.dhs := by
  cases op with
  | write call payload outLen =>
      exact NoiseSpec.writeMessage_dhs h
  | read call msg outCap =>
      exact NoiseSpec.readMessage_dhs h

theorem runSpecOps_dhs
    (ops : List HsOp) {x x' : NoiseSpec.HandshakeState} {outs : List Bytes}
    (h : runSpecOps P ops x = some (outs, x')) :
    x.dhs <+: x'.dhs := by
  induction ops generalizing x outs with
  | nil =>
      cases h
      exact List.prefix_rfl
  | cons op ops ih =>
      unfold runSpecOps at h
      split at h
      · cases h
      · rename_i hop
        rw [Option.map_eq_some_iff] at h
        obtain ⟨⟨outs', x''⟩, hrest, heq⟩ := h
        cases heq
        exact (runSpec_dhs hop).trans (ih hrest)

/-- Runs of the code and of the interpreter from related states. -/
theorem runOps_refines
    (ops : List HsOp) {hs : NoiseHandshake} {x : NoiseSpec.HandshakeState} (hrel : HsRel hs x) :
    (∀ outs hs', runCodeOps P ops hs = some (outs, hs') →
      ∃ x', runSpecOps P ops x = some (outs, x') ∧ HsRel hs' x') ∧
    (runCodeOps P ops hs = none →
      ∀ outs x', runSpecOps P ops x = some (outs, x') →
        (∃ d ∈ x'.dhs, ZeroDh d) ∨
        ∃ (i : Nat) (op : HsOp), ops[i]? = some op ∧ op.Limited (hs.msgIndex + i)) := by
  induction ops generalizing hs x with
  | nil =>
      refine ⟨?_, ?_⟩
      · intro outs hs' h
        cases h
        exact ⟨x, rfl, hrel⟩
      · intro h
        cases h
  | cons op ops ih =>
      have hop := op_refines (P := P) hrel op
      unfold runCodeOps runSpecOps
      cases hcode : op.runCode P hs with
      | ok out hs1 =>
          rw [hcode] at hop
          obtain ⟨x1, hspec, hrel1, hidx⟩ := hop
          obtain ⟨ih1, ih2⟩ := ih hrel1
          simp only [hspec]
          refine ⟨?_, ?_⟩
          · intro outs hs' h
            rw [Option.map_eq_some_iff] at h
            obtain ⟨⟨outs1, hs2⟩, hrest, heq⟩ := h
            cases heq
            obtain ⟨x', hx', hrel'⟩ := ih1 _ _ hrest
            exact ⟨x', by simp [hx'], hrel'⟩
          · intro h outs x' hx'
            rw [Option.map_eq_some_iff] at hx'
            obtain ⟨⟨outs1, x2⟩, hrest, heq⟩ := hx'
            cases heq
            rcases ih2 (by simpa using h) _ _ hrest with hz | ⟨i, op', hget, hlim⟩
            · exact .inl hz
            · refine .inr ⟨i + 1, op', by simpa using hget, ?_⟩
              rw [hidx] at hlim
              rwa [show hs.msgIndex + (i + 1) = hs.msgIndex + 1 + i by omega]
      | error err hs1 =>
          rw [hcode] at hop
          refine ⟨?_, ?_⟩
          · intro outs hs' h
            cases h
          · intro _ outs x' hx'
            split at hx'
            · cases hx'
            · rename_i out x1 hspec
              rw [Option.map_eq_some_iff] at hx'
              obtain ⟨⟨outs1, x2⟩, hrest, heq⟩ := hx'
              cases heq
              rcases hop with hlim | hzero
              · exact .inr ⟨0, op, by simp, hlim⟩
              · obtain ⟨d, hd, hz⟩ := hzero out x1 hspec
                exact .inl ⟨d, (runSpecOps_dhs ops hrest).subset (List.drop_subset _ _ hd), hz⟩

/-- Before the first message the objects are related, for every protocol name. -/
theorem handshakeInit_rel
    (name : Bytes) (initiator : Bool) (s : KeyPair) :
    HsRel (handshakeInitNamed P name initiator s.priv s.pub)
      (NoiseSpec.initializeHandshake (noxSuite P) name noisePrologue NoiseSpec.patternXX
        initiator (absPair s)) := by
  refine
    { sym := ?_, role := rfl, patterns := rfl, pub := rfl, notSplit := rfl, notFailed := rfl
      keyed := rfl, nonce := zero_lt_uint64Max, keys := ?_ }
  · show NoiseSpec.SymmetricState.mixHash (noxSuite P)
      (NoiseSpec.initializeSymmetric (noxSuite P) name) noisePrologue = _
    rw [absSym_init, absSym_mixHash]
    rfl
  · cases initiator <;> rfl

theorem handshakeSplit_agrees
    {hs : NoiseHandshake} {x : NoiseSpec.HandshakeState} (hrel : HsRel hs x)
    (alloc : HkdfAlloc) :
    SplitAgrees P alloc hs x := by
  have htake : ∀ b : Block 64, (Block.ofBytes 32 b.toList).toList = b.toList.take 32 := by
    intro b
    exact Block.toList_ofBytes_of_le (by simp)
  by_cases hm : hs.msgIndex ≥ 3
  · have hpat : x.patterns = [] := by
      rw [hrel.patterns]
      exact List.drop_eq_nil_of_le (by simpa [NoiseSpec.patternXX] using hm)
    by_cases ha : alloc.Ok
    · simp only [SplitAgrees, handshakeSplit, hrel.notSplit, hrel.notFailed, handshakeIsComplete,
        hm, symmetricSplit, hkdfBlake2b_eq, ha, specSplit, hpat, hrel.sym]
      refine ⟨_, _, rfl, ?_⟩
      cases hs.initiator <;>
        simp [absSym, suite_hkdf, cipherInitKey, htake, hkdf64]
    · simp only [SplitAgrees, handshakeSplit, hrel.notSplit, hrel.notFailed, handshakeIsComplete,
        hm, symmetricSplit, hkdfBlake2b_eq, ha]
      exact .inl not_false
  · have hpat : x.patterns.isEmpty = false := by
      rw [hrel.patterns]
      rcases h : hs.msgIndex with _ | _ | _ | m
      · rfl
      · rfl
      · rfl
      · omega
    simp [SplitAgrees, handshakeSplit, hrel.notSplit, hrel.notFailed, handshakeIsComplete, hm,
      specSplit, hpat]

/--
The handshake object refines the interpreter, for every protocol name, role, key
material and list of calls.

A run the code accepts is accepted by the interpreter with the same message bytes and
payloads; it ends with the same `ck`, `h`, `k` and `n`, and the split gives the same
transport keys.  A run the code rejects is rejected by the interpreter too, unless one
of the DH operations has an all-zero input or output, a size limit is exceeded or an
allocation fails.
-/
theorem handshake_refines
    (P : Primitives) (name : Bytes) (initiator : Bool) (s : KeyPair) (ops : List HsOp) :
    (∀ outs hs,
      runCodeOps P ops (handshakeInitNamed P name initiator s.priv s.pub) = some (outs, hs) →
      ∃ x,
        runSpecOps P ops
          (NoiseSpec.initializeHandshake (noxSuite P) name noisePrologue NoiseSpec.patternXX
            initiator (absPair s)) = some (outs, x) ∧
        x.sym = absSym hs.ss ∧
        ∀ alloc, SplitAgrees P alloc hs x) ∧
    (runCodeOps P ops (handshakeInitNamed P name initiator s.priv s.pub) = none →
      ∀ outs x,
        runSpecOps P ops
          (NoiseSpec.initializeHandshake (noxSuite P) name noisePrologue NoiseSpec.patternXX
            initiator (absPair s)) = some (outs, x) →
        (∃ d ∈ x.dhs, ZeroDh d) ∨
        ∃ (i : Nat) (op : HsOp), ops[i]? = some op ∧ (op.SizeLimited i ∨ ¬ op.AllocsOk i)) := by
  have hrel := handshakeInit_rel (P := P) name initiator s
  obtain ⟨haccept, hreject⟩ := runOps_refines ops hrel
  refine ⟨?_, ?_⟩
  · intro outs hs hcode
    obtain ⟨x, hspec, hrel'⟩ := haccept outs hs hcode
    exact ⟨x, hspec, hrel'.sym, fun alloc => handshakeSplit_agrees hrel' alloc⟩
  · intro hcode outs x hspec
    rcases hreject hcode outs x hspec with hzero | ⟨i, op, hget, hlim⟩
    · exact .inl hzero
    · refine .inr ⟨i, op, hget, ?_⟩
      have h0 : (handshakeInitNamed P name initiator s.priv s.pub).msgIndex + i = i := Nat.zero_add i
      rwa [h0] at hlim

/-- Read a first message with the ephemeral key 3, then answer; `alloc` is the first
allocation of the answer. -/
def sampleOps (alloc : Bool) : List HsOp :=
  [.read (sampleCall 5) ((samplePair 3).pub.toList ++ [1, 2]) 256,
    .write { sampleCall 4 with alloc1 := { sampleAlloc with bufs := alloc } } (.data [3, 4]) 256]

def sampleResponder : NoiseHandshake :=
  handshakeInitNamed samplePrimitives noiseProtocolName false
    (samplePair 2).priv (samplePair 2).pub

def sampleSpecResponder : NoiseSpec.HandshakeState :=
  NoiseSpec.initializeHandshake (noxSuite samplePrimitives) noiseProtocolName noisePrologue
    NoiseSpec.patternXX false (absPair (samplePair 2))

theorem handshake_refines_sample :
    ∃ outs hs x,
      runCodeOps samplePrimitives (sampleOps true) sampleResponder = some (outs, hs) ∧
      runSpecOps samplePrimitives (sampleOps true) sampleSpecResponder = some (outs, x) ∧
      x.sym = absSym hs.ss := by
  have hcode : ∃ outs hs,
      runCodeOps samplePrimitives (sampleOps true) sampleResponder = some (outs, hs) :=
    ⟨_, _, rfl⟩
  obtain ⟨outs, hs, hcode⟩ := hcode
  obtain ⟨x, hspec, hsym, -⟩ := (handshake_refines samplePrimitives noiseProtocolName false
    (samplePair 2) (sampleOps true)).1 outs hs hcode
  exact ⟨outs, hs, x, hcode, hspec, hsym⟩

/--
With no all-zero DH and within all size limits the code still rejects what the
interpreter accepts, when `sodium_malloc` fails.
-/
theorem handshake_alloc_rejects :
    runCodeOps samplePrimitives (sampleOps false) sampleResponder = none ∧
    (∃ outs x, runSpecOps samplePrimitives (sampleOps false) sampleSpecResponder = some (outs, x) ∧
      ∀ d ∈ x.dhs, ¬ ZeroDh d) ∧
    ∀ (i : Nat) (op : HsOp), (sampleOps false)[i]? = some op → ¬ op.SizeLimited i := by
  refine ⟨rfl, ⟨_, _, rfl, ?_⟩, ?_⟩
  · show ∀ d ∈ [((samplePair 3).pub.toList, (samplePair 7).pub.toList),
      ((samplePair 3).pub.toList, (samplePair 5).pub.toList)], ¬ ZeroDh d
    decide
  · intro i op hop
    rcases i with _ | _ | i
    · simp only [sampleOps, List.getElem?_cons_zero, Option.some.injEq] at hop
      subst hop
      simp [HsOp.SizeLimited, msgHeader, noiseMaxPayloadLen, noxMaxMsgLen, noxMacLen]
    · simp only [sampleOps, List.getElem?_cons_succ, List.getElem?_cons_zero,
        Option.some.injEq] at hop
      subst hop
      simp [HsOp.SizeLimited, msgOverhead, noiseMaxHandshakeLen]
    · simp [sampleOps] at hop

end Runs

end Noise
end Noxtor
