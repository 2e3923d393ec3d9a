import Noxtor.Lib.ByteString

/-!
# A token interpreter for the Noise protocol framework

Revision 34 of the framework describes a handshake by three nested objects and a
list of message patterns.  This module writes them down as the specification does,
over an arbitrary suite of primitives:

* a `CipherState` holds an optional key and a nonce counter;
* a `SymmetricState` adds the chaining key `ck` and the handshake hash `h`;
* a `HandshakeState` adds the key pairs and the message patterns still to come.

`writeMessage` and `readMessage` process the tokens of the next pattern one by one.
An operation that signals an error returns `none`.

The interpreter keeps one piece of history the specification does not mention: the
list `dhs` of the public keys and outputs of the DH operations done so far.  No step
reads it.
-/

namespace NoiseSpec

open ByteString

/-- The primitives a protocol name fixes. -/
structure Suite where
  hashLen : Nat
  blockLen : Nat
  dhLen : Nat
  tagLen : Nat
  hash : Bytes → Bytes
  dh : Bytes → Bytes → Bytes
  encrypt : Bytes → Nat → Bytes → Bytes → Bytes
  decrypt : Bytes → Nat → Bytes → Bytes → Option Bytes

/-- Section 5.1: an optional key and a nonce counter. -/
structure CipherState where
  k : Option Bytes
  n : Nat

/-- The reserved nonce value. -/
def maxNonce : Nat := 2 ^ 64 - 1

/-- Section 5.2: chaining key, handshake hash and cipher state. -/
structure SymmetricState where
  ck : Bytes
  h : Bytes
  cs : CipherState

/-- The tokens of a message pattern. -/
inductive Token where
  | e
  | s
  | ee
  | es
  | se
  | ss
deriving DecidableEq

/-- A key pair. -/
structure KeyPair where
  priv : Bytes
  pub : Bytes

/-- One message pattern: `toResponder` is the arrow, then the tokens. -/
structure MessagePattern where
  toResponder : Bool
  tokens : List Token

/-- Section 5.3: the handshake object. -/
structure HandshakeState where
  sym : SymmetricState
  s : KeyPair
  e : Option KeyPair
  rs : Option Bytes
  re : Option Bytes
  initiator : Bool
  patterns : List MessagePattern
  dhs : List (Bytes × Bytes)

/-- `XX`: `-> e`, `<- e, ee, s, es`, `-> s, se`. -/
def patternXX : List MessagePattern :=
  [⟨true, [.e]⟩, ⟨false, [.e, .ee, .s, .es]⟩, ⟨true, [.s, .se]⟩]

section Interpreter

variable (S : Suite)

/-- RFC 2104 over the suite's hash. -/
def hmac (key data : Bytes) : Bytes :=
  let short := if key.length > S.blockLen then S.hash key else key
  let block := short ++ List.replicate (S.blockLen - short.length) 0
  S.hash (block.map (· ^^^ 0x5c) ++ S.hash (block.map (· ^^^ 0x36) ++ data))

/-- `HKDF(chaining_key, input_key_material, 2)`. -/
def hkdf (ck ikm : Bytes) : Bytes × Bytes :=
  let tempKey := hmac S ck ikm
  let output1 := hmac S tempKey [0x01]
  (output1, hmac S tempKey (output1 ++ [0x02]))

/-- `EncryptWithAd`. -/
def CipherState.encryptWithAd (c : CipherState) (ad plaintext : Bytes) :
    Option (Bytes × CipherState) :=
  match c.k with
  | none => some (plaintext, c)
  | some k =>
      if c.n = maxNonce then none
      else some (S.encrypt k c.n ad plaintext, { c with n := c.n + 1 })

/-- `DecryptWithAd`. -/
def CipherState.decryptWithAd (c : CipherState) (ad ciphertext : Bytes) :
    Option (Bytes × CipherState) :=
  match c.k with
  | none => some (ciphertext, c)
  | some k =>
      if c.n = maxNonce then none
      else
        match S.decrypt k c.n ad ciphertext with
        | none => none
        | some plaintext => some (plaintext, { c with n := c.n + 1 })

/-- `InitializeSymmetric`. -/
def initializeSymmetric (name : Bytes) : SymmetricState :=
  let h :=
    if name.length ≤ S.hashLen then
      name ++ List.replicate (S.hashLen - name.length) 0
    else S.hash name
  { ck := h, h := h, cs := { k := none, n := 0 } }

/-- `MixKey`; keys are truncated to 32 bytes. -/
def SymmetricState.mixKey (y : SymmetricState) (ikm : Bytes) : SymmetricState :=
  { y with ck := (hkdf S y.ck ikm).1,
           cs := { k := some ((hkdf S y.ck ikm).2.take 32), n := 0 } }

/-- `MixHash`. -/
def SymmetricState.mixHash (y : SymmetricState) (data : Bytes) : SymmetricState :=
  { y with h := S.hash (y.h ++ data) }

/-- `EncryptAndHash`. -/
def SymmetricState.encryptAndHash (y : SymmetricState) (plaintext : Bytes) :
    Option (Bytes × SymmetricState) :=
  match y.cs.encryptWithAd S y.h plaintext with
  | none => none
  | some (ct, cs) => some (ct, SymmetricState.mixHash S { y with cs := cs } ct)

/-- `DecryptAndHash`. -/
def SymmetricState.decryptAndHash (y : SymmetricState) (ciphertext : Bytes) :
    Option (Bytes × SymmetricState) :=
  match y.cs.decryptWithAd S y.h ciphertext with
  | none => none
  | some (pt, cs) => some (pt, SymmetricState.mixHash S { y with cs := cs } ciphertext)

/-- `Split`: the two transport keys. -/
def SymmetricState.split (y : SymmetricState) : Bytes × Bytes :=
  ((hkdf S y.ck []).1.take 32, (hkdf S y.ck []).2.take 32)

/-- `Initialize`, with the prologue mixed in after the protocol name. -/
def initializeHandshake (name prologue : Bytes) (patterns : List MessagePattern)
    (initiator : Bool) (s : KeyPair) : HandshakeState :=
  { sym := SymmetricState.mixHash S (initializeSymmetric S name) prologue,
    s := s, e := none, rs := none, re := none,
    initiator := initiator, patterns := patterns, dhs := [] }

/-- `MixKey(DH(own, remote))`; an absent key is an error. -/
def HandshakeState.mixDh (x : HandshakeState) (own : Option KeyPair)
    (remote : Option Bytes) : Option HandshakeState :=
  match own, remote with
  | some kp, some pub =>
      some { x with sym := SymmetricState.mixKey S x.sym (S.dh kp.priv pub),
                    dhs := x.dhs ++ [(pub, S.dh kp.priv pub)] }
  | _, _ => none

/-- The four DH tokens. -/
def HandshakeState.mixToken (x : HandshakeState) : Token → Option HandshakeState
  | .ee => x.mixDh S x.e x.re
  | .es => if x.initiator then x.mixDh S x.e x.rs else x.mixDh S (some x.s) x.re
  | .se => if x.initiator then x.mixDh S (some x.s) x.re else x.mixDh S x.e x.rs
  | .ss => x.mixDh S (some x.s) x.rs
  | _ => none

/-- Sending side of one token. -/
def HandshakeState.writeToken (eph : KeyPair) (x : HandshakeState) :
    Token → Option (Bytes × HandshakeState)
  | .e =>
      some (eph.pub,
        { x with e := some eph, sym := SymmetricState.mixHash S x.sym eph.pub })
  | .s =>
      match SymmetricState.encryptAndHash S x.sym x.s.pub with
      | none => none
      | some (ct, y) => some (ct, { x with sym := y })
  | t =>
      match x.mixToken S t with
      | none => none
      | some x' => some ([], x')

/-- Sending side of a token list. -/
def HandshakeState.writeTokens (eph : KeyPair) :
    HandshakeState → List Token → Option (Bytes × HandshakeState)
  | x, [] => some ([], x)
  | x, t :: ts =>
      match x.writeToken S eph t with
      | none => none
      | some (out, x') =>
          match writeTokens eph x' ts with
          | none => none
          | some (rest, x'') => some (out ++ rest, x'')

/-- `WriteMessage`: the tokens of the next pattern, then the payload. -/
def HandshakeState.writeMessage (eph : KeyPair) (x : HandshakeState)
    (payload : Bytes) : Option (Bytes × HandshakeState) :=
  match x.patterns with
  | [] => none
  | p :: ps =>
      if p.toResponder = x.initiator then
        match ({ x with patterns := ps } : HandshakeState).writeTokens S eph p.tokens with
        | none => none
        | some (out, x') =>
            match SymmetricState.encryptAndHash S x'.sym payload with
            | none => none
            | some (ct, y) => some (out ++ ct, { x' with sym := y })
      else none

/-- Receiving side of one token: the new state and the unread rest. -/
def HandshakeState.readToken (x : HandshakeState) (msg : Bytes) :
    Token → Option (Bytes × HandshakeState)
  | .e =>
      if msg.length < S.dhLen then none
      else
        some (msg.drop S.dhLen,
          { x with re := some (msg.take S.dhLen),
                   sym := SymmetricState.mixHash S x.sym (msg.take S.dhLen) })
  | .s =>
      let len := if x.sym.cs.k.isSome then S.dhLen + S.tagLen else S.dhLen
      if msg.length < len then none
      else
        match SymmetricState.decryptAndHash S x.sym (msg.take len) with
        | none => none
        | some (rs, y) => some (msg.drop len, { x with rs := some rs, sym := y })
  | t =>
      match x.mixToken S t with
      | none => none
      | some x' => some (msg, x')

/-- Receiving side of a token list. -/
def HandshakeState.readTokens :
    HandshakeState → Bytes → List Token → Option (Bytes × HandshakeState)
  | x, msg, [] => some (msg, x)
  | x, msg, t :: ts =>
      match x.readToken S msg t with
      | none => none
      | some (rest, x') => readTokens x' rest ts

/-- `ReadMessage`: the tokens of the next pattern, then the payload. -/
def HandshakeState.readMessage (x : HandshakeState) (msg : Bytes) :
    Option (Bytes × HandshakeState) :=
  match x.patterns with
  | [] => none
  | p :: ps =>
      if p.toResponder = x.initiator then none
      else
        match ({ x with patterns := ps } : HandshakeState).readTokens S msg p.tokens with
        | none => none
        | some (rest, x') =>
            match SymmetricState.decryptAndHash S x'.sym rest with
            | none => none
            | some (pt, y) => some (pt, { x' with sym := y })

end Interpreter

section History

variable {S : Suite}

theorem mixDh_dhs
    {x x' : HandshakeState} {own : Option KeyPair} {remote : Option Bytes}
    (h : x.mixDh S own remote = some x') :
    x.dhs <+: x'.dhs := by
  unfold HandshakeState.mixDh at h
  split at h
  · rw [Option.some.injEq] at h
    rw [← h]
    exact List.prefix_append _ _
  · cases h

theorem mixToken_dhs
    {x x' : HandshakeState} {t : Token} (h : x.mixToken S t = some x') :
    x.dhs <+: x'.dhs := by
  unfold HandshakeState.mixToken at h
  split at h
  · exact mixDh_dhs h
  · split at h <;> exact mixDh_dhs h
  · split at h <;> exact mixDh_dhs h
  · exact mixDh_dhs h
  · cases h

theorem writeToken_dhs
    {eph : KeyPair} {x x' : HandshakeState} {t : Token} {out : Bytes}
    (h : x.writeToken S eph t = some (out, x')) :
    x.dhs <+: x'.dhs := by
  unfold HandshakeState.writeToken at h
  split at h
  · cases h
    exact List.prefix_rfl
  · split at h
    · cases h
    · cases h
      exact List.prefix_rfl
  · split at h
    · cases h
    · rename_i hmix
      cases h
      exact mixToken_dhs hmix

theorem writeTokens_dhs
    {eph : KeyPair} (ts : List Token) {x x' : HandshakeState} {out : Bytes}
    (h : x.writeTokens S eph ts = some (out, x')) :
    x.dhs <+: x'.dhs := by
  induction ts generalizing x out with
  | nil =>
      cases h
      exact List.prefix_rfl
  | cons t ts ih =>
      unfold HandshakeState.writeTokens at h
      split at h
      · cases h
      · rename_i hwrite
        split at h
        · cases h
        · rename_i hrest
          cases h
          exact (writeToken_dhs hwrite).trans (ih hrest)

theorem writeMessage_dhs
    {eph : KeyPair} {x x' : HandshakeState} {payload out : Bytes}
    (h : x.writeMessage S eph payload = some (out, x')) :
    x.dhs <+: x'.dhs := by
  unfold HandshakeState.writeMessage at h
  split at h
  · cases h
  · split at h
    · split at h
      · cases h
      · rename_i htokens
        split at h
        · cases h
        · cases h
          have hdhs := writeTokens_dhs _ htokens
          exact hdhs
    · cases h

theorem readToken_dhs
    {x x' : HandshakeState} {msg rest : Bytes} {t : Token}
    (h : x.readToken S msg t = some (rest, x')) :
    x.dhs <+: x'.dhs := by
  unfold HandshakeState.readToken at h
  split at h
  · split at h
    · cases h
    · cases h
      exact List.prefix_rfl
  · dsimp only at h
    generalize (if x.sym.cs.k.isSome = true then S.dhLen + S.tagLen else S.dhLen) = len at h
    split at h
    · cases h
    · split at h
      · cases h
      · cases h
        exact List.prefix_rfl
  · split at h
    · cases h
    · rename_i hmix
      cases h
      exact mixToken_dhs hmix

theorem readTokens_dhs
    (ts : List Token) {x x' : HandshakeState} {msg rest : Bytes}
    (h : x.readTokens S msg ts = some (rest, x')) :
    x.dhs <+: x'.dhs := by
  induction ts generalizing x msg with
  | nil =>
      cases h
      exact List.prefix_rfl
  | cons t ts ih =>
      unfold HandshakeState.readTokens at h
      split at h
      · cases h
      · rename_i hread
        exact (readToken_dhs hread).trans (ih h)

theorem readMessage_dhs
    {x x' : HandshakeState} {msg out : Bytes}
    (h : x.readMessage S msg = some (out, x')) :
    x.dhs <+: x'.dhs := by
  unfold HandshakeState.readMessage at h
  split at h
  · cases h
  · split at h
    · cases h
    · split at h
      · cases h
      · rename_i htokens
        split at h
        · cases h
        · cases h
          have hdhs := readTokens_dhs _ htokens
          exact hdhs

end History

end NoiseSpec
