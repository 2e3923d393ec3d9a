import Noxtor.Noise.Symmetric

/-!
# The XX handshake object

`handshake_init`, `handshake_write`, `handshake_read` and `handshake_split` of
`noise.c`, with the six message functions behind them.

A call that fails still changes the object, so the functions live in a monad that
keeps the state together with the error.  The inputs a call takes from outside, a fresh
ephemeral key pair and the outcome of its allocations, are its argument `HsCall`.
-/

namespace Noxtor
namespace Noise

open ByteString

/-- `struct noise_handshake`. -/
structure NoiseHandshake where
  ss : SymmetricState
  s : Key
  sPub : Key
  e : Key
  ePub : Key
  rs : Key
  re : Key
  initiator : Bool
  msgIndex : Nat
  splitDone : Bool
  failed : Bool
deriving DecidableEq

/-- What one call takes from its surroundings. -/
structure HsCall where
  eph : KeyPair
  alloc1 : HkdfAlloc
  alloc2 : HkdfAlloc
deriving DecidableEq

/-- Computations on a handshake object that keep the object when they fail. -/
abbrev HsM := EStateM NoxErr NoiseHandshake

/-- `NOISE_PROTOCOL_NAME`, "Noise_XX_25519_ChaChaPoly_BLAKE2b". -/
def noiseProtocolName : Bytes :=
  [0x4e, 0x6f, 0x69, 0x73, 0x65, 0x5f, 0x58, 0x58, 0x5f, 0x32, 0x35, 0x35,
    0x31, 0x39, 0x5f, 0x43, 0x68, 0x61, 0x43, 0x68, 0x61, 0x50, 0x6f, 0x6c,
    0x79, 0x5f, 0x42, 0x4c, 0x41, 0x4b, 0x45, 0x32, 0x62]

/-- The hardcoded prologue, "Mustafa Kemal Atatürk" in UTF-8. -/
def noisePrologue : Bytes :=
  [0x4d, 0x75, 0x73, 0x74, 0x61, 0x66, 0x61, 0x20, 0x4b, 0x65, 0x6d, 0x61,
    0x6c, 0x20, 0x41, 0x74, 0x61, 0x74, 0xc3, 0xbc, 0x72, 0x6b]

section Handshake

variable (P : Primitives)

/-- `noise_dh`: an all-zero public key or an all-zero output is an error. -/
def noiseDh (priv pub : Key) : Except NoxErr Key :=
  if pub = Block.zero 32 then .error .crypto
  else
    match P.scalarmult priv pub with
    | none => .error .crypto
    | some out => if out = Block.zero 32 then .error .crypto else .ok out

/-- `handshake_init` for a given protocol name. -/
def handshakeInitNamed (protocolName : Bytes) (initiator : Bool) (sPriv sPub : Key) :
    NoiseHandshake :=
  { ss := symmetricMixHash P (symmetricInit P protocolName) noisePrologue,
    s := sPriv, sPub := sPub,
    e := Block.zero 32, ePub := Block.zero 32,
    rs := Block.zero 32, re := Block.zero 32,
    initiator := initiator, msgIndex := 0, splitDone := false, failed := false }

/-- `handshake_init`; a NULL key is `none`. -/
def handshakeInit (initiator : Bool) (sPriv sPub : Option Key) :
    Except NoxErr NoiseHandshake :=
  match sPriv, sPub with
  | some priv, some pub => .ok (handshakeInitNamed P noiseProtocolName initiator priv pub)
  | _, _ => .error .proto

/-- `if (c) return err;`, before anything has changed. -/
def hsReject (c : Prop) [Decidable c] (err : NoxErr) : HsM Unit := fun hs =>
  if c then .error err hs else .ok () hs

/-- `symmetric_mix_hash(&hs->ss, …)`. -/
def hsMixHash (data : Bytes) : HsM Unit :=
  modify fun hs => { hs with ss := symmetricMixHash P hs.ss data }

/-- `noise_dh` followed by `symmetric_mix_key`. -/
def hsMixDh (alloc : HkdfAlloc) (priv pub : NoiseHandshake → Key) : HsM Unit := fun hs =>
  match noiseDh P (priv hs) (pub hs) with
  | .error _ => .error .crypto hs
  | .ok dhOut =>
      match symmetricMixKey P alloc dhOut.toList hs.ss with
      | .error err ss => .error err { hs with ss := ss }
      | .ok _ ss => .ok () { hs with ss := ss }

/-- `symmetric_encrypt_and_hash`; -1 becomes `NOX_ERR_CRYPTO`. -/
def hsEncrypt (plaintext : NoiseHandshake → Buf) : HsM Bytes := fun hs =>
  match symmetricEncryptAndHash P hs.ss (plaintext hs) with
  | (none, ss) => .error .crypto { hs with ss := ss }
  | (some ct, ss) => .ok ct { hs with ss := ss }

/-- `symmetric_decrypt_and_hash`; -1 becomes `NOX_ERR_AUTH`. -/
def hsDecrypt (ciphertext : Bytes) (outCap : Nat) : HsM Bytes := fun hs =>
  match symmetricDecryptAndHash P hs.ss ciphertext outCap with
  | (none, ss) => .error .auth { hs with ss := ss }
  | (some pt, ss) => .ok pt { hs with ss := ss }

/-- The `e` token on the sending side. -/
def hsSendEphemeral (eph : KeyPair) : HsM Bytes := do
  modify fun hs => { hs with e := eph.priv, ePub := eph.pub }
  hsMixHash P eph.pub.toList
  return eph.pub.toList

/-- The `e` token on the receiving side. -/
def hsRecvEphemeral (re : Key) : HsM Unit := do
  modify fun hs => { hs with re := re }
  hsMixHash P re.toList

/-- The `s` token on the receiving side: 48 bytes are opened into `rs`. -/
def hsRecvStatic (ciphertext : Bytes) : HsM Unit := do
  let pt ← hsDecrypt P ciphertext 32
  modify fun hs => { hs with rs := Block.ofBytes 32 pt }

/-- `write_msg0`: `-> e`. -/
def writeMsg0 (call : HsCall) (payload : Buf) (outLen : Nat) : HsM Bytes := do
  hsReject (32 + payload.len > outLen) .proto
  let ephemeral ← hsSendEphemeral P call.eph
  let ct ← hsEncrypt P (fun _ => payload)
  return ephemeral ++ ct

/-- `write_msg1`: `<- e, ee, s, es`. -/
def writeMsg1 (call : HsCall) (payload : Buf) (outLen : Nat) : HsM Bytes := do
  hsReject (32 + 32 + 16 + payload.len + 16 > outLen) .proto
  let ephemeral ← hsSendEphemeral P call.eph
  hsMixDh P call.alloc1 (·.e) (·.re)
  let static ← hsEncrypt P (fun hs => .data hs.sPub.toList)
  hsMixDh P call.alloc2 (·.s) (·.re)
  let ct ← hsEncrypt P (fun _ => payload)
  modify fun hs => { hs with s := Block.zero 32 }
  return ephemeral ++ static ++ ct

/-- `write_msg2`: `-> s, se`. -/
def writeMsg2 (call : HsCall) (payload : Buf) (outLen : Nat) : HsM Bytes := do
  hsReject (32 + 16 + payload.len + 16 > outLen) .proto
  let static ← hsEncrypt P (fun hs => .data hs.sPub.toList)
  hsMixDh P call.alloc1 (·.s) (·.re)
  let ct ← hsEncrypt P (fun _ => payload)
  modify fun hs => { hs with s := Block.zero 32 }
  return static ++ ct

/-- `read_msg0`: `-> e`. -/
def readMsg0 (msg : Bytes) (outCap : Nat) : HsM Bytes := do
  hsReject (msg.length < 32) .proto
  hsRecvEphemeral P (Block.ofBytes 32 msg)
  hsDecrypt P (msg.drop 32) outCap

/-- `read_msg1`: `<- e, ee, s, es`. -/
def readMsg1 (call : HsCall) (msg : Bytes) (outCap : Nat) : HsM Bytes := do
  hsReject (msg.length < 32 + 32 + 16) .proto
  hsRecvEphemeral P (Block.ofBytes 32 msg)
  hsMixDh P call.alloc1 (·.e) (·.re)
  hsRecvStatic P ((msg.drop 32).take 48)
  hsMixDh P call.alloc2 (·.e) (·.rs)
  hsDecrypt P (msg.drop 80) outCap

/-- `read_msg2`: `-> s, se`. -/
def readMsg2 (call : HsCall) (msg : Bytes) (outCap : Nat) : HsM Bytes := do
  hsReject (msg.length < 32 + 16) .proto
  hsRecvStatic P (msg.take 48)
  hsMixDh P call.alloc1 (·.e) (·.rs)
  hsDecrypt P (msg.drop 48) outCap

/-- What a failed turn leaves behind: every secret and the transcript are zeroed. -/
def hsFail (hs : NoiseHandshake) : NoiseHandshake :=
  { hs with
    failed := true
    e := Block.zero 32, ePub := Block.zero 32
    s := Block.zero 32, sPub := Block.zero 32
    re := Block.zero 32, rs := Block.zero 32
    ss := { hs.ss with
      ck := Block.zero 64, h := Block.zero 64
      cs := { hs.ss.cs with k := Block.zero 32 } } }

/-- The end of `handshake_write` and `handshake_read`: count the message or fail. -/
def hsTurn (x : HsM Bytes) : HsM Bytes := fun hs =>
  match x hs with
  | .ok out hs' => .ok out { hs' with msgIndex := hs'.msgIndex + 1 }
  | .error err hs' => .error err (hsFail hs')

/-- `sodium_memzero(hs->e, …)` after a read that needed `e` for the last time. -/
def hsWipeE (x : HsM Bytes) : HsM Bytes := do
  let out ← x
  modify fun hs => { hs with e := Block.zero 32 }
  return out

/-- The two `switch` statements of `handshake_write`. -/
def writeTurn (call : HsCall) (payload : Buf) (outLen : Nat) : HsM Bytes := fun hs =>
  match hs.initiator, hs.msgIndex with
  | true, 0 => hsTurn (writeMsg0 P call payload outLen) hs
  | true, 2 => hsTurn (writeMsg2 P call payload outLen) hs
  | false, 1 => hsTurn (writeMsg1 P call payload outLen) hs
  | _, _ => .error .state hs

/-- The two `switch` statements of `handshake_read`. -/
def readTurn (call : HsCall) (msg : Bytes) (outCap : Nat) : HsM Bytes := fun hs =>
  match hs.initiator, hs.msgIndex with
  | true, 1 => hsTurn (hsWipeE (readMsg1 P call msg outCap)) hs
  | false, 0 => hsTurn (readMsg0 P msg outCap) hs
  | false, 2 => hsTurn (hsWipeE (readMsg2 P call msg outCap)) hs
  | _, _ => .error .state hs

/--
`handshake_write`.  `out` is the capacity `*out_len`, or `none` if one of the output
pointers is NULL.  A NULL payload counts as an empty one.
-/
def handshakeWrite (call : HsCall) (payload : Buf) (out : Option Nat) : HsM Bytes := fun hs =>
  match out with
  | none => .error .proto hs
  | some outLen =>
      if hs.splitDone || hs.failed then .error .state hs
      else
        let pl := if payload.isNull then .null 0 else payload
        if pl.len > noiseMaxHandshakeLen then .error .proto hs
        else writeTurn P call pl outLen hs

/--
`handshake_read`.  `out` is the capacity of the payload buffer, or `none` if one of
the output pointers is NULL.
-/
def handshakeRead (call : HsCall) (msg : Buf) (out : Option Nat) : HsM Bytes := fun hs =>
  match msg, out with
  | .data m, some outCap =>
      if hs.splitDone || hs.failed then .error .state hs
      else readTurn P call m outCap hs
  | _, _ => .error .proto hs

/-- `handshake_is_complete`. -/
def handshakeIsComplete (hs : NoiseHandshake) : Bool :=
  decide (hs.msgIndex ≥ 3)

/-- `handshake_split`, for a non-NULL session pointer. -/
def handshakeSplit (alloc : HkdfAlloc) : HsM NoiseSession := fun hs =>
  if hs.splitDone || hs.failed then .error .state hs
  else if !handshakeIsComplete hs then .error .state hs
  else
    match symmetricSplit P alloc hs.ss with
    | .error err ss => .error err (hsFail { hs with ss := ss })
    | .ok (c1, c2) ss =>
        .ok { tx := if hs.initiator then c1 else c2,
              rx := if hs.initiator then c2 else c1,
              remoteStatic := hs.rs }
          { hs with
            ss := ss
            e := Block.zero 32, ePub := Block.zero 32
            s := Block.zero 32, sPub := Block.zero 32
            re := Block.zero 32, rs := Block.zero 32
            splitDone := true }

end Handshake

end Noise
end Noxtor
