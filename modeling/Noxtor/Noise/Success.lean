import Noxtor.Noise.Handshake

/-!
# The handshake on its successful path

For every step of the message functions this module names the state it reaches when it
succeeds and proves that it does succeed.  A sealed message and the state after sealing
are written `sealBytes` and `sealState`; opening a sealed message reaches the same
state, which is what keeps the two sides of a handshake together.
-/

namespace Noxtor
namespace Noise

open ByteString

theorem hsM_bind_ok
    {α β : Type} {x : HsM α} {f : α → HsM β}
    {hs hs' : NoiseHandshake} {a : α}
    {r : EStateM.Result NoxErr NoiseHandshake β}
    (h : x hs = .ok a hs') (hf : f a hs' = r) :
    (x >>= f) hs = r := by
  show EStateM.bind x f hs = r
  simp only [EStateM.bind, h, hf]

theorem hsM_bind_error
    {α β : Type} {x : HsM α} {f : α → HsM β}
    {hs hs' : NoiseHandshake} {err : NoxErr}
    (h : x hs = .error err hs') :
    (x >>= f) hs = .error err hs' := by
  show EStateM.bind x f hs = .error err hs'
  simp only [EStateM.bind, h]

theorem hsReject_ok
    {c : Prop} [Decidable c] (h : ¬ c) (err : NoxErr) (hs : NoiseHandshake) :
    hsReject c err hs = .ok () hs := by
  simp [hsReject, h]

theorem hsReject_error
    {c : Prop} [Decidable c] (h : c) (err : NoxErr) (hs : NoiseHandshake) :
    hsReject c err hs = .error err hs := by
  simp [hsReject, h]

section Success

variable (P : Primitives)

/-- State after a successful `symmetric_mix_key`. -/
def mixKey64 (ss : SymmetricState) (ikm : Bytes) : SymmetricState :=
  { ss with ck := (hkdf64 P ss.ck ikm).1,
            cs := cipherInitKey (Block.ofBytes 32 (hkdf64 P ss.ck ikm).2.toList) }

/-- Output of a successful `symmetric_encrypt_and_hash`. -/
def sealBytes (ss : SymmetricState) (pt : Bytes) : Bytes :=
  if ss.cs.hasKey then P.aeadEncrypt ss.cs.k (encodeNonce ss.cs.n) ss.h.toList pt
  else pt

/-- State after a successful `symmetric_encrypt_and_hash`. -/
def sealState (ss : SymmetricState) (pt : Bytes) : SymmetricState :=
  symmetricMixHash P
    { ss with cs := if ss.cs.hasKey then { ss.cs with n := ss.cs.n + 1 } else ss.cs }
    (sealBytes P ss pt)

@[simp] theorem symmetricMixHash_cs
    (ss : SymmetricState) (data : Bytes) :
    (symmetricMixHash P ss data).cs = ss.cs := by
  rfl

@[simp] theorem symmetricMixHash_ck
    (ss : SymmetricState) (data : Bytes) :
    (symmetricMixHash P ss data).ck = ss.ck := by
  rfl

@[simp] theorem mixKey64_hasKey
    (ss : SymmetricState) (ikm : Bytes) :
    (mixKey64 P ss ikm).cs.hasKey = true := by
  rfl

@[simp] theorem mixKey64_n
    (ss : SymmetricState) (ikm : Bytes) :
    (mixKey64 P ss ikm).cs.n = 0 := by
  rfl

@[simp] theorem sealState_hasKey
    (ss : SymmetricState) (pt : Bytes) :
    (sealState P ss pt).cs.hasKey = ss.cs.hasKey := by
  unfold sealState
  rw [symmetricMixHash_cs]
  split <;> simp

theorem sealState_n
    (ss : SymmetricState) (pt : Bytes) :
    (sealState P ss pt).cs.n = if ss.cs.hasKey then ss.cs.n + 1 else ss.cs.n := by
  unfold sealState
  rw [symmetricMixHash_cs]
  split <;> rfl

theorem sealBytes_length
    (ss : SymmetricState) (pt : Bytes) :
    (sealBytes P ss pt).length = pt.length + if ss.cs.hasKey then 16 else 0 := by
  unfold sealBytes
  split
  · rw [P.aeadEncrypt_length]
  · simp

theorem zero_lt_uint64Max : (0 : UInt64) < uint64Max := by
  decide

theorem hsSendEphemeral_ok
    (eph : KeyPair) (hs : NoiseHandshake) :
    hsSendEphemeral P eph hs =
      .ok eph.pub.toList
        { hs with
          e := eph.priv, ePub := eph.pub
          ss := symmetricMixHash P hs.ss eph.pub.toList } := by
  rfl

theorem hsRecvEphemeral_ok
    (re : Key) (hs : NoiseHandshake) :
    hsRecvEphemeral P re hs =
      .ok () { hs with re := re, ss := symmetricMixHash P hs.ss re.toList } := by
  rfl

variable {P}

theorem symmetricMixKey_ok
    {alloc : HkdfAlloc} (ha : alloc.Ok) (ss : SymmetricState) (ikm : Bytes) :
    symmetricMixKey P alloc ikm ss = .ok () (mixKey64 P ss ikm) := by
  simp [symmetricMixKey, hkdfBlake2b_eq, ha, mixKey64]

theorem symmetricEncryptAndHash_ok
    {ss : SymmetricState} {b : Buf} (hb : b.len = b.bytes.length)
    (hn : ss.cs.n < uint64Max) (hlen : b.bytes.length ≤ noxMaxMsgLen) :
    symmetricEncryptAndHash P ss b =
      (some (sealBytes P ss b.bytes), sealState P ss b.bytes) := by
  have h1 : ¬ b.len > noxMaxMsgLen := by omega
  have h2 : ¬ uint64Max ≤ ss.cs.n := by simpa using hn
  have h3 : ¬ (b.len > 0 ∧ b.isNull) := by
    rintro ⟨hpos, hnull⟩
    cases b with
    | null n =>
        simp at hb hpos
        omega
    | data bs =>
        simp at hnull
  cases hk : ss.cs.hasKey with
  | false =>
      simp [symmetricEncryptAndHash, cipherEncrypt, h1, h3, hk, sealBytes, sealState]
  | true =>
      simp [symmetricEncryptAndHash, cipherEncrypt, h1, h2, h3, hk, sealBytes, sealState]

/-- Opening a sealed message returns the plaintext and reaches the sealer's state. -/
theorem symmetricDecryptAndHash_seal
    (haead : ∀ k n ad pt, P.aeadDecrypt k n ad (P.aeadEncrypt k n ad pt) = some pt)
    {ss : SymmetricState} {pt : Bytes} {outCap : Nat}
    (hn : ss.cs.n < uint64Max) (hlen : pt.length ≤ noxMaxMsgLen)
    (hcap : pt.length ≤ outCap) :
    symmetricDecryptAndHash P ss (sealBytes P ss pt) outCap =
      (some pt, sealState P ss pt) := by
  have h2 : ¬ uint64Max ≤ ss.cs.n := by simpa using hn
  have hmax : noiseMaxPayloadLen = noxMaxMsgLen + 16 := rfl
  have hmac : noxMacLen = 16 := rfl
  have hl := sealBytes_length P ss pt
  cases hk : ss.cs.hasKey with
  | false =>
      have hb : sealBytes P ss pt = pt := by simp [sealBytes, hk]
      rw [hb]
      have h3 : ¬ pt.length > outCap := by omega
      have h4 : ¬ pt.length > noiseMaxPayloadLen := by omega
      simp [symmetricDecryptAndHash, cipherDecrypt, hk, h3, h4, sealState, hb]
  | true =>
      simp only [hk, if_true] at hl
      have h3 : ¬ (sealBytes P ss pt).length < noxMacLen := by omega
      have h4 : ¬ (sealBytes P ss pt).length - noxMacLen > outCap := by omega
      have h5 : ¬ (sealBytes P ss pt).length > noiseMaxPayloadLen := by omega
      have hb : sealBytes P ss pt =
          P.aeadEncrypt ss.cs.k (encodeNonce ss.cs.n) ss.h.toList pt := by
        simp [sealBytes, hk]
      have hopen : P.aeadDecrypt ss.cs.k (encodeNonce ss.cs.n) ss.h.toList
          (sealBytes P ss pt) = some pt := by
        rw [hb]
        exact haead _ _ _ _
      simp [symmetricDecryptAndHash, cipherDecrypt, hk, h2, h3, h4, h5, hopen, sealState]

theorem hsMixDh_ok
    {alloc : HkdfAlloc} (ha : alloc.Ok)
    {priv pub : NoiseHandshake → Key} {hs : NoiseHandshake} {d : Key}
    (hd : noiseDh P (priv hs) (pub hs) = .ok d) :
    hsMixDh P alloc priv pub hs = .ok () { hs with ss := mixKey64 P hs.ss d.toList } := by
  simp [hsMixDh, hd, symmetricMixKey_ok ha]

theorem hsEncrypt_ok
    {plaintext : NoiseHandshake → Buf} {hs : NoiseHandshake} {b : Buf}
    (hpt : plaintext hs = b) (hb : b.len = b.bytes.length)
    (hn : hs.ss.cs.n < uint64Max) (hlen : b.bytes.length ≤ noxMaxMsgLen) :
    hsEncrypt P plaintext hs =
      .ok (sealBytes P hs.ss b.bytes) { hs with ss := sealState P hs.ss b.bytes } := by
  simp [hsEncrypt, hpt, symmetricEncryptAndHash_ok hb hn hlen]

theorem hsDecrypt_seal
    (haead : ∀ k n ad pt, P.aeadDecrypt k n ad (P.aeadEncrypt k n ad pt) = some pt)
    {hs : NoiseHandshake} {pt : Bytes} {outCap : Nat}
    (hn : hs.ss.cs.n < uint64Max) (hlen : pt.length ≤ noxMaxMsgLen)
    (hcap : pt.length ≤ outCap) :
    hsDecrypt P (sealBytes P hs.ss pt) outCap hs =
      .ok pt { hs with ss := sealState P hs.ss pt } := by
  simp [hsDecrypt, symmetricDecryptAndHash_seal haead hn hlen hcap]

/-- The sealed static key is opened into `rs`. -/
theorem hsRecvStatic_seal
    (haead : ∀ k n ad pt, P.aeadDecrypt k n ad (P.aeadEncrypt k n ad pt) = some pt)
    {hs : NoiseHandshake} (static : Key)
    (hn : hs.ss.cs.n < uint64Max) :
    hsRecvStatic P (sealBytes P hs.ss static.toList) hs =
      .ok () { hs with rs := static, ss := sealState P hs.ss static.toList } := by
  unfold hsRecvStatic
  refine hsM_bind_ok (hsDecrypt_seal haead hn (by simp [noxMaxMsgLen]) (by simp)) ?_
  rw [Block.ofBytes_toList]
  rfl

end Success

end Noise
end Noxtor
