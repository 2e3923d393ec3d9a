import Noxtor.App.Types

/-!
# Onion addresses and identity claims

`crypto_onion_pubkey`, `crypto_onion_sign` and `crypto_onion_verify` of `crypto.c`,
`validate_onion_address` of `network.c`, `validate_onion_input` of `stdin_handler.c` and
`hs_build_claim_payload` of `event_loop.c`.

A claim is the payload of a handshake message: a version byte, an onion address and a
signature that binds the address to the sender's static key.
-/

namespace Noxtor
namespace App

open ByteString

/-- The suffix ".onion". -/
def onionSuffix : Bytes :=
  [0x2e, 0x6f, 0x6e, 0x69, 0x6f, 0x6e]

/-- `NOX_ONION_BIND_CTX`, "noxtor-bind-v1". -/
def noxOnionBindCtx : Bytes :=
  [0x6e, 0x6f, 0x78, 0x74, 0x6f, 0x72, 0x2d, 0x62, 0x69, 0x6e, 0x64, 0x2d, 0x76, 0x31]

/-- `NOX_ONION_CKSUM_CTX`, ".onion checksum". -/
def noxOnionCksumCtx : Bytes :=
  [0x2e, 0x6f, 0x6e, 0x69, 0x6f, 0x6e, 0x20, 0x63, 0x68, 0x65, 0x63, 0x6b, 0x73, 0x75, 0x6d]

/-- `NOX_ONION_BODY_LEN`. -/
def noxOnionBodyLen : Nat := 35

/-- The value of a base32 character, `a`..`z` and `2`..`7`. -/
def b32Value (c : UInt8) : Option Nat :=
  if 0x61 ≤ c ∧ c ≤ 0x7a then some (c.toNat - 0x61)
  else if 0x32 ≤ c ∧ c ≤ 0x37 then some (26 + (c.toNat - 0x32))
  else none

/-- The loop of `onion_b32_decode`; `acc` is a 32-bit register. -/
def onionB32Loop : Bytes → Nat → Nat → Bytes → Except NoxErr (Nat × Bytes)
  | [], _, bits, out => .ok (bits, out)
  | c :: cs, acc, bits, out =>
      match b32Value c with
      | none => .error .crypto
      | some x =>
          let acc' := (acc * 32 + x) % 2 ^ 32
          if bits + 5 ≥ 8 then
            onionB32Loop cs acc' (bits + 5 - 8)
              (out ++ [UInt8.ofNat (acc' / 2 ^ (bits + 5 - 8))])
          else onionB32Loop cs acc' (bits + 5) out

/-- `onion_b32_decode`: 56 characters give 35 bytes. -/
def onionB32Decode (addr : Bytes) : Except NoxErr Bytes :=
  match onionB32Loop (addr.take noxOnionB32Len) 0 0 [] with
  | .error err => .error err
  | .ok (bits, out) =>
      if bits ≠ 0 ∨ out.length ≠ noxOnionBodyLen then .error .crypto else .ok out

/-- `onion_bind_msg`. -/
def onionBindMsg (addr : Bytes) (staticPub : Key) : Bytes :=
  noxOnionBindCtx ++ addr.take noxOnionLen ++ staticPub.toList

section Onion

variable (P : Primitives)

/-- `crypto_onion_pubkey`. -/
def cryptoOnionPubkey (addr : Bytes) : Except NoxErr Key :=
  if addr.length ≠ noxOnionLen then .error .proto
  else if addr.drop noxOnionB32Len ≠ onionSuffix then .error .proto
  else if (addr.take noxOnionB32Len).any (fun c => (b32Value c).isNone) then .error .proto
  else
    match onionB32Decode addr with
    | .error _ => .error .crypto
    | .ok body =>
        if body.getD (noxOnionBodyLen - 1) 0 ≠ 3 then .error .proto
        else
          let digest := P.sha3 (noxOnionCksumCtx ++ body.take 32 ++ [3])
          if digest.toList.take 2 ≠ (body.drop 32).take 2 then .error .proto
          else .ok (Block.ofBytes 32 body)

/-- `validate_onion_address`. -/
def validateOnionAddress (addr : Bytes) : Bool :=
  (cryptoOnionPubkey P addr).isOk

/-- `crypto_onion_sign`. -/
def cryptoOnionSign (addr : Bytes) (staticPub onionSeed : Key) : Except NoxErr (Block 64) :=
  if addr.length ≠ noxOnionLen then .error .proto
  else .ok (P.signDetached onionSeed (onionBindMsg addr staticPub))

/-- `crypto_onion_verify`. -/
def cryptoOnionVerify (sig : Block 64) (addr : Bytes) (staticPub : Key) : Except NoxErr Unit :=
  match cryptoOnionPubkey P addr with
  | .error err => .error err
  | .ok pub =>
      if P.signVerify sig (onionBindMsg addr staticPub) pub then .ok () else .error .auth

/-- `hs_build_claim_payload`. -/
def hsBuildClaimPayload (sh : Shared) : Except NoxErr Bytes :=
  match sh.myOnionSeed, sh.myStaticPub with
  | some seed, some pub =>
      match cryptoOnionSign P sh.onionAddr pub seed with
      | .error err => .error err
      | .ok sig =>
          .ok ([noxHsPayloadV1Ver] ++ sh.onionAddr.take noxOnionLen ++ sig.toList)
  | _, _ => .error .state

/-- The address field of a claim payload. -/
def claimOnion (pl : Bytes) : Bytes :=
  cstr ((pl.drop 1).take noxOnionLen)

/-- The signature field of a claim payload. -/
def claimSig (pl : Bytes) : Block 64 :=
  Block.ofBytes 64 (pl.drop (1 + noxOnionLen))

end Onion

/-- `validate_onion_input`. -/
def validateOnionInput (onion : Bytes) : Bool :=
  if onion.length ≠ noxOnionLen then false
  else if (onion.take 56).any (fun c => (b32Value c).isNone) then false
  else onion.drop 56 = onionSuffix

section Facts

variable {P : Primitives}

/-- A verified signature is a signature under the key inside the address. -/
theorem cryptoOnionVerify_ok
    {sig : Block 64} {addr : Bytes} {staticPub : Key}
    (h : cryptoOnionVerify P sig addr staticPub = .ok ()) :
    ∃ pub, cryptoOnionPubkey P addr = .ok pub ∧
      P.signVerify sig (onionBindMsg addr staticPub) pub = true := by
  unfold cryptoOnionVerify at h
  cases hpub : cryptoOnionPubkey P addr with
  | error err =>
      rw [hpub] at h
      cases h
  | ok pub =>
      rw [hpub] at h
      refine ⟨pub, rfl, ?_⟩
      by_cases hsig : P.signVerify sig (onionBindMsg addr staticPub) pub = true
      · exact hsig
      · simp [hsig] at h

end Facts

end App
end Noxtor
