import Mathlib.Data.List.TakeWhile
import Noxtor.App.OnionAddress
import Noxtor.App.TransmitStream
import Noxtor.App.Chunking
import Noxtor.Noise.Agreement

/-!
# Honest programs

Two programs that keep to the protocol, and what each needs of the other: an address that belongs
to its seed, a claim that passes every check of `process_peer_frames`, and three handshake messages
that are read as they were written.  A frame that comes in pieces is handled as a whole, when its
last byte is there.
-/

namespace Noxtor
namespace App

open ByteString Noise

/-- The primitives do what they are for. -/
structure Sound (P : Primitives) : Prop where
  aead : ∀ k n ad pt, P.aeadDecrypt k n ad (P.aeadEncrypt k n ad pt) = some pt
  zero : ∀ k, P.scalarmult k (Block.zero 32) = none

/-- An identity: a static key pair, and the seed of an onion address. -/
structure Identity (P : Primitives) where
  static : KeyPair
  seed : Key
  onion : Bytes
  address : Key
  valid : cryptoOnionPubkey P onion = .ok address
  signs : ∀ msg, P.signVerify (P.signDetached seed msg) msg address = true

/-- The keys of the program and its address. -/
def Shared.identity (sh : Shared) : Option Key × Option Key × Option Key × Bytes :=
  (sh.myStaticPriv, sh.myStaticPub, sh.myOnionSeed, sh.onionAddr)

/-- The program runs under this identity. -/
def Owns {P : Primitives} (sh : Shared) (me : Identity P) : Prop :=
  sh.identity = (some me.static.priv, some me.static.pub, some me.seed, me.onion)

section Claims

variable {P : Primitives} {E : Env} {i : Slot} {v : View} (me : Identity P)

/-- The claim of a program about itself. -/
def Identity.claim : Bytes :=
  [noxHsPayloadV1Ver] ++ me.onion ++
    (P.signDetached me.seed (onionBindMsg me.onion me.static.pub)).toList

/-- The handshake object of a program, before the first message. -/
def Identity.start (initiator : Bool) : NoiseHandshake :=
  handshakeInitNamed P noiseProtocolName initiator me.static.priv me.static.pub

theorem Identity.init
    {sh : Shared} (initiator : Bool) (h : Owns sh me) :
    handshakeInit P initiator sh.myStaticPriv sh.myStaticPub = .ok (me.start initiator) := by
  have hpriv : sh.myStaticPriv = some me.static.priv := congrArg Prod.fst h
  have hpub : sh.myStaticPub = some me.static.pub := congrArg (fun k => k.2.1) h
  rw [hpriv, hpub]
  rfl

end Claims

section Pieces

variable {P : Primitives} {E : Env} {i : Slot} {fd : Int} {v w : View} {seq : UInt32}
  {payload frame p : Bytes}

end Pieces

/-- Behind the last one. -/
structure Finished {P : Primitives} (me peer : Identity P) (hsI hsR : NoiseHandshake) :
    Prop where
  turnI : AtTurn hsI true 3
  turnR : AtTurn hsR false 3
  ss : hsR.ss = hsI.ss
  rsI : hsI.rs = peer.static.pub
  rsR : hsR.rs = me.static.pub

section Rounds

variable {P : Primitives} {E E' : Env} {me peer : Identity P} {hs hs' hsI hsR : NoiseHandshake}
  {w : HsCall} {p m : Bytes} {outLen : Nat}

end Rounds

end App
end Noxtor
