import Mathlib.Data.List.GetD
import Noxtor.Lib.Positional
import Noxtor.App.Onion

/-!
# Addresses and public keys

The reference encoding of a public key: 35 bytes, the key, two bytes of a checksum and the version
3, written as a number with 56 digits in base 32, and the suffix ".onion".

`onion_b32_decode` is a streaming decoder with a 32-bit register.  Its loop keeps `Decoding`: the
bytes written so far, with the bits that are still in the register, are the number that has been
read.  So `crypto_onion_pubkey` accepts exactly the reference encodings.
`validate_onion_input`, which looks at the characters only, accepts more.
-/

namespace Noxtor
namespace App

open ByteString Positional

/-- The character of a base32 digit. -/
def b32Char (d : Nat) : UInt8 :=
  if d < 26 then UInt8.ofNat (0x61 + d) else UInt8.ofNat (0x32 + (d - 26))

/-- The number that bytes stand for. -/
def bytesValue (b : Bytes) : Nat :=
  value 256 (b.map UInt8.toNat)

/-- The base32 encoding of 35 bytes. -/
def base32 (body : Bytes) : Bytes :=
  (digits 32 noxOnionB32Len (bytesValue body)).map b32Char

section Address

variable (P : Primitives)

/-- The first two bytes of the digest. -/
def onionChecksum (pk : Bytes) : Bytes :=
  (P.sha3 (noxOnionCksumCtx ++ pk ++ [3])).toList.take 2

/-- The bytes of an address. -/
def onionBody (pk : Key) : Bytes :=
  pk.toList ++ onionChecksum P pk.toList ++ [3]

/-- The address of a public key. -/
def onionAddress (pk : Key) : Bytes :=
  base32 (onionBody P pk) ++ onionSuffix

end Address

theorem b32Value_b32Char
    {d : Nat} (h : d < 32) :
    b32Value (b32Char d) = some d := by
  have hall : ∀ d < 32, b32Value (b32Char d) = some d := by
    decide +kernel
  exact hall d h

theorem b32Char_of_value
    {c : UInt8} {d : Nat} (h : b32Value c = some d) :
    d < 32 ∧ b32Char d = c := by
  have hall : ∀ n < 256, ∀ d, b32Value (UInt8.ofNat n) = some d →
      d < 32 ∧ b32Char d = UInt8.ofNat n := by
    have hsome : ∀ n < 256, (b32Value (UInt8.ofNat n)).all fun d =>
        d < 32 ∧ b32Char d = UInt8.ofNat n := by
      decide +kernel
    intro n hn d hd
    have hd' := hsome n hn
    rw [hd] at hd'
    simpa using hd'
  have hc := hall c.toNat c.toNat_lt d
  rw [UInt8.ofNat_toNat] at hc
  exact hc h

/-- Characters of the alphabet are those of their values. -/
theorem exists_values
    {cs : Bytes} (h : ∀ c ∈ cs, b32Value c ≠ none) :
    ∃ vs : List Nat, (∀ v ∈ vs, v < 32) ∧ cs = vs.map b32Char := by
  induction cs with
  | nil =>
      exact ⟨[], by simp, rfl⟩
  | cons c cs ih =>
      obtain ⟨vs, hvs, rfl⟩ := ih fun d hd => h d (List.mem_cons_of_mem c hd)
      obtain ⟨v, hv⟩ := Option.ne_none_iff_exists'.mp (h c List.mem_cons_self)
      obtain ⟨hlt, rfl⟩ := b32Char_of_value hv
      refine ⟨v :: vs, fun w hw => ?_, rfl⟩
      obtain rfl | hw := List.mem_cons.mp hw
      · exact hlt
      · exact hvs w hw

theorem bytesValue_concat
    (out : Bytes) (b : UInt8) :
    bytesValue (out ++ [b]) = bytesValue out * 256 + b.toNat := by
  simp [bytesValue]

/-- The state of the loop when the digits `vs` have been read. -/
structure Decoding (vs : List Nat) (acc bits : Nat) (out : Bytes) : Prop where
  register : acc = value 32 vs % 2 ^ 32
  few : bits < 8
  size : out.length * 8 + bits = 5 * vs.length
  number : bytesValue out = value 32 vs / 2 ^ bits

theorem decoding_start : Decoding [] 0 0 [] :=
  ⟨rfl, by omega, rfl, rfl⟩

/-- A digit that completes a byte. -/
theorem Decoding.byte
    {vs : List Nat} {acc bits v : Nat} {out : Bytes} (h : Decoding vs acc bits out) (hv : v < 32)
    (hbits : bits + 5 ≥ 8) :
    Decoding (vs ++ [v]) ((acc * 32 + v) % 2 ^ 32) (bits + 5 - 8)
      (out ++ [UInt8.ofNat ((acc * 32 + v) % 2 ^ 32 / 2 ^ (bits + 5 - 8))]) := by
  obtain ⟨hacc, hfew, hsize, hnum⟩ := h
  have hreg : (acc * 32 + v) % 2 ^ 32 = value 32 (vs ++ [v]) % 2 ^ 32 := by
    rw [value_concat, hacc]
    omega
  refine ⟨hreg, by omega, ?_, ?_⟩
  · simp only [List.length_append, List.length_singleton]
    omega
  · rw [bytesValue_concat, hnum, hreg, UInt8.toNat_ofNat', value_concat]
    generalize value 32 vs = x
    -- the new byte lies in the low 15 bits, which the register has kept
    obtain rfl | rfl | rfl | rfl | rfl : bits = 3 ∨ bits = 4 ∨ bits = 5 ∨ bits = 6 ∨ bits = 7 := by
      omega
    · norm_num
      omega
    · norm_num
      omega
    · norm_num
      omega
    · norm_num
      omega
    · norm_num
      omega

/-- A digit that does not. -/
theorem Decoding.noByte
    {vs : List Nat} {acc bits v : Nat} {out : Bytes} (h : Decoding vs acc bits out) (hv : v < 32)
    (hbits : ¬ bits + 5 ≥ 8) :
    Decoding (vs ++ [v]) ((acc * 32 + v) % 2 ^ 32) (bits + 5) out := by
  obtain ⟨hacc, hfew, hsize, hnum⟩ := h
  refine ⟨?_, by omega, ?_, ?_⟩
  · rw [value_concat, hacc]
    omega
  · simp only [List.length_append, List.length_singleton]
    omega
  · rw [hnum, value_concat]
    generalize value 32 vs = x
    obtain rfl | rfl | rfl : bits = 0 ∨ bits = 1 ∨ bits = 2 := by
      omega
    · norm_num
      omega
    · norm_num
      omega
    · norm_num
      omega

/-- The loop reads the digits of its characters. -/
theorem onionB32Loop_digits
    {vs : List Nat} {acc bits : Nat} {out : Bytes} (h : Decoding vs acc bits out) (ws : List Nat)
    (hws : ∀ w ∈ ws, w < 32) :
    ∃ acc' bits' out', onionB32Loop (ws.map b32Char) acc bits out = .ok (bits', out') ∧
      Decoding (vs ++ ws) acc' bits' out' := by
  induction ws generalizing vs acc bits out with
  | nil =>
      refine ⟨acc, bits, out, rfl, ?_⟩
      rw [List.append_nil]
      exact h
  | cons w ws ih =>
      have hw : w < 32 := hws w List.mem_cons_self
      have hws' : ∀ u ∈ ws, u < 32 := fun u hu => hws u (List.mem_cons_of_mem w hu)
      rw [List.map_cons, List.append_cons]
      unfold onionB32Loop
      rw [b32Value_b32Char hw]
      dsimp only
      split
      · rename_i hbits
        exact ih (h.byte hw hbits) hws'
      · rename_i hbits
        exact ih (h.noByte hw hbits) hws'

/-- The loop fails at the first character outside the alphabet. -/
theorem onionB32Loop_alphabet
    {cs : Bytes} {acc bits : Nat} {out : Bytes} {r : Nat × Bytes}
    (h : onionB32Loop cs acc bits out = .ok r) :
    ∀ c ∈ cs, b32Value c ≠ none := by
  induction cs generalizing acc bits out with
  | nil =>
      intro c hc
      cases hc
  | cons c cs ih =>
      unfold onionB32Loop at h
      split at h
      · cases h
      · rename_i v hv
        intro d hd
        obtain rfl | hd := List.mem_cons.mp hd
        · rw [hv]
          simp
        · dsimp only at h
          split at h
          · exact ih h d hd
          · exact ih h d hd

/-- What the loop has written when it is through with some characters. -/
theorem onionB32Loop_size
    {cs : Bytes} {bits : Nat} {out : Bytes} (h : onionB32Loop cs 0 0 [] = .ok (bits, out)) :
    bits < 8 ∧ out.length * 8 + bits = 5 * cs.length := by
  obtain ⟨vs, hvs, rfl⟩ := exists_values (onionB32Loop_alphabet h)
  obtain ⟨acc', bits', out', hrun, hdec⟩ := onionB32Loop_digits decoding_start vs hvs
  cases hrun.symm.trans h
  have hsize := hdec.size
  rw [List.nil_append] at hsize
  exact ⟨hdec.few, by rw [List.length_map]; exact hsize⟩

/-- 56 characters of the alphabet are decoded to the 35 bytes of their number. -/
theorem onionB32Decode_digits
    {vs : List Nat} (hvs : ∀ v ∈ vs, v < 32) (hlen : vs.length = noxOnionB32Len) (rest : Bytes) :
    ∃ out, onionB32Decode (vs.map b32Char ++ rest) = .ok out ∧ out.length = noxOnionBodyLen ∧
      bytesValue out = value 32 vs := by
  have hb32 : noxOnionB32Len = 56 := rfl
  have hbody : noxOnionBodyLen = 35 := rfl
  obtain ⟨acc', bits', out, hrun, hdec⟩ := onionB32Loop_digits decoding_start vs hvs
  obtain ⟨-, hfew, hsize, hnum⟩ := hdec
  rw [List.nil_append] at hsize hnum
  have hzero : bits' = 0 := by omega
  subst hzero
  refine ⟨out, ?_, by omega, by simpa using hnum⟩
  unfold onionB32Decode
  rw [List.take_left' (by simpa using hlen), hrun]
  dsimp only
  rw [if_neg]
  rintro (h | h)
  · exact h rfl
  · exact h (by omega)

theorem toNat_digits_lt (b : Bytes) : ∀ d ∈ b.map UInt8.toNat, d < 256 := by
  intro d hd
  obtain ⟨c, -, rfl⟩ := List.mem_map.mp hd
  exact c.toNat_lt

theorem bytesValue_injective
    {a b : Bytes} (hlen : a.length = b.length) (h : bytesValue a = bytesValue b) :
    a = b := by
  have hmap := value_injective (toNat_digits_lt a) (toNat_digits_lt b) (by simpa using hlen) h
  exact List.map_injective_iff.mpr (fun _ _ => UInt8.toNat_inj.mp) hmap

/-- 35 bytes have 56 digits in base 32. -/
theorem bytesValue_lt
    {body : Bytes} (h : body.length = noxOnionBodyLen) :
    bytesValue body < 32 ^ noxOnionB32Len := by
  have hlt := value_lt (toNat_digits_lt body)
  rw [List.length_map, h] at hlt
  calc bytesValue body < 256 ^ noxOnionBodyLen := hlt
    _ = 32 ^ noxOnionB32Len := by decide

@[simp] theorem base32_length (body : Bytes) : (base32 body).length = noxOnionB32Len := by
  simp [base32]

/-- Decoding undoes encoding. -/
theorem onionB32Decode_base32
    {body : Bytes} (h : body.length = noxOnionBodyLen) (rest : Bytes) :
    onionB32Decode (base32 body ++ rest) = .ok body := by
  obtain ⟨out, hdec, hlen, hnum⟩ := onionB32Decode_digits
    (digits_lt (by omega) noxOnionB32Len (bytesValue body)) (digits_length _ _ _) rest
  rw [value_digits (bytesValue_lt h)] at hnum
  rw [bytesValue_injective (hlen.trans h.symm) hnum] at hdec
  exact hdec

/-- Encoding undoes decoding. -/
theorem base32_onionB32Decode
    {cs rest body : Bytes} (hlen : cs.length = noxOnionB32Len)
    (hcs : ∀ c ∈ cs, b32Value c ≠ none) (h : onionB32Decode (cs ++ rest) = .ok body) :
    body.length = noxOnionBodyLen ∧ base32 body = cs := by
  obtain ⟨vs, hvs, rfl⟩ := exists_values hcs
  rw [List.length_map] at hlen
  obtain ⟨out, hdec, hout, hnum⟩ := onionB32Decode_digits hvs hlen rest
  cases hdec.symm.trans h
  refine ⟨hout, ?_⟩
  rw [base32, hnum, ← hlen, digits_value hvs]

section Correspondence

variable {P : Primitives}

@[simp] theorem onionChecksum_length (pk : Bytes) : (onionChecksum P pk).length = 2 := by
  simp [onionChecksum]

theorem onionBody_length (pk : Key) : (onionBody P pk).length = noxOnionBodyLen := by
  simp [onionBody, noxOnionBodyLen]

theorem base32_alphabet (body : Bytes) : ∀ c ∈ base32 body, b32Value c ≠ none := by
  intro c hc
  obtain ⟨d, hd, rfl⟩ := List.mem_map.mp hc
  rw [b32Value_b32Char (digits_lt (by omega) _ _ d hd)]
  simp

/-- What `crypto_onion_pubkey` asks of the characters is what `validate_onion_input` asks. -/
theorem validateOnionInput_iff
    (s : Bytes) :
    validateOnionInput s = true ↔ ∃ cs, s = cs ++ onionSuffix ∧ cs.length = noxOnionB32Len ∧
      ∀ c ∈ cs, b32Value c ≠ none := by
  have hb32 : noxOnionB32Len = 56 := rfl
  have honion : noxOnionLen = 62 := rfl
  have hsuffix : onionSuffix.length = 6 := rfl
  constructor
  · intro h
    unfold validateOnionInput at h
    split at h
    · cases h
    · rename_i hlen
      split at h
      · cases h
      · rename_i hany
        rw [decide_eq_true_eq] at h
        refine ⟨s.take 56, ?_, ?_, fun c hc => ?_⟩
        · rw [← h, List.take_append_drop]
        · rw [List.length_take]
          omega
        · simp only [List.any_eq_true, not_exists, not_and, Bool.not_eq_true] at hany
          have hc := hany c hc
          rintro hnone
          rw [hnone] at hc
          cases hc
  · rintro ⟨cs, rfl, hlen, hcs⟩
    rw [hb32] at hlen
    unfold validateOnionInput
    rw [if_neg, if_neg]
    · rw [List.drop_left' hlen]
      exact decide_eq_true rfl
    · rw [List.take_left' hlen]
      simp only [List.any_eq_true, not_exists, not_and, Bool.not_eq_true]
      intro c hc
      exact Option.isNone_eq_false_iff.mpr (Option.isSome_iff_ne_none.mpr (hcs c hc))
    · rw [List.length_append, hlen, hsuffix]
      omega

/-- The body of a string with the form of an address. -/
theorem cryptoOnionPubkey_eq
    {s body : Bytes} (hform : validateOnionInput s = true) (hbody : onionB32Decode s = .ok body) :
    cryptoOnionPubkey P s =
      if body.getD 34 0 ≠ 3 then .error .proto
      else if onionChecksum P (body.take 32) ≠ (body.drop 32).take 2 then .error .proto
      else .ok (Block.ofBytes 32 body) := by
  have hb32 : noxOnionB32Len = 56 := rfl
  unfold validateOnionInput at hform
  unfold cryptoOnionPubkey
  split at hform
  · cases hform
  · rename_i hlen
    split at hform
    · cases hform
    · rename_i hany
      rw [if_neg hlen, hb32, if_neg (by simpa using hform), if_neg hany, hbody]
      rfl

/-- A string without that form is not accepted. -/
theorem cryptoOnionPubkey_form
    {s : Bytes} {pk : Key} (h : cryptoOnionPubkey P s = .ok pk) :
    validateOnionInput s = true := by
  unfold cryptoOnionPubkey at h
  unfold validateOnionInput
  split at h
  · cases h
  · rename_i hlen
    split at h
    · cases h
    · rename_i hsuffix
      split at h
      · cases h
      · rename_i hany
        rw [if_neg hlen]
        exact (if_neg hany).trans (decide_eq_true (not_not.mp hsuffix))

/-- The address of a key is decoded to the key. -/
theorem cryptoOnionPubkey_onionAddress
    (pk : Key) :
    cryptoOnionPubkey P (onionAddress P pk) = .ok pk := by
  have hform : validateOnionInput (onionAddress P pk) = true :=
    (validateOnionInput_iff _).mpr
      ⟨base32 (onionBody P pk), rfl, base32_length _, base32_alphabet _⟩
  have hbody : onionB32Decode (onionAddress P pk) = .ok (onionBody P pk) :=
    onionB32Decode_base32 (onionBody_length pk) onionSuffix
  have hlen : pk.toList.length = 32 := pk.toList_length
  have hfront : (pk.toList ++ onionChecksum P pk.toList).length = 34 := by
    rw [List.length_append, hlen, onionChecksum_length]
  rw [cryptoOnionPubkey_eq hform hbody]
  have hversion : (onionBody P pk).getD 34 0 = 3 := by
    rw [onionBody, List.getD_append_right _ _ _ _ (by omega), hfront]
    rfl
  have htake : (onionBody P pk).take 32 = pk.toList := by
    rw [onionBody, List.append_assoc, List.take_left' hlen]
  have hcheck : ((onionBody P pk).drop 32).take 2 = onionChecksum P pk.toList := by
    rw [onionBody, List.append_assoc, List.drop_left' hlen,
      List.take_left' (onionChecksum_length _)]
  rw [if_neg (by rw [hversion]; simp), if_neg (by rw [htake, hcheck]; simp), onionBody,
    List.append_assoc, Block.ofBytes_append]

/-- A string that is accepted is the address of the key that is returned. -/
theorem eq_onionAddress_of_ok
    {s : Bytes} {pk : Key} (h : cryptoOnionPubkey P s = .ok pk) :
    s = onionAddress P pk := by
  have hform := cryptoOnionPubkey_form h
  obtain ⟨cs, rfl, hlen, hcs⟩ := (validateOnionInput_iff s).mp hform
  obtain ⟨vs, hvs, rfl⟩ := exists_values hcs
  obtain ⟨body, hbody, -, -⟩ := onionB32Decode_digits hvs (by simpa using hlen) onionSuffix
  obtain ⟨hsize, henc⟩ := base32_onionB32Decode hlen hcs hbody
  have hbodyLen : noxOnionBodyLen = 35 := rfl
  rw [cryptoOnionPubkey_eq hform hbody] at h
  split at h
  · cases h
  · rename_i hversion
    split at h
    · cases h
    · rename_i hcheck
      cases h
      have hpk : (Block.ofBytes 32 body).toList = body.take 32 :=
        Block.toList_ofBytes_of_le (by omega)
      have hlast : (body.drop 32).drop 2 = [3] := by
        have h34 : 34 < body.length := by omega
        rw [not_not, List.getD_eq_getElem _ _ h34] at hversion
        rw [List.drop_drop, List.drop_eq_getElem_cons h34, hversion,
          List.drop_eq_nil_of_le (by omega)]
      rw [not_not] at hcheck
      have hsame : onionBody P (Block.ofBytes 32 body) = body := by
        rw [onionBody, hpk, hcheck, ← hlast, List.append_assoc, List.take_append_drop,
          List.take_append_drop]
      rw [onionAddress, hsame, henc]

/-- `validate_onion_address` accepts the reference encodings. -/
theorem validateOnionAddress_iff
    (s : Bytes) :
    validateOnionAddress P s = true ↔ ∃ pk, s = onionAddress P pk := by
  unfold validateOnionAddress
  constructor
  · intro h
    generalize hres : cryptoOnionPubkey P s = r at h
    cases r with
    | error err =>
        cases h
    | ok pk =>
        exact ⟨pk, eq_onionAddress_of_ok hres⟩
  · rintro ⟨pk, hs⟩
    rw [hs, cryptoOnionPubkey_onionAddress]
    rfl

end Correspondence

/--
`crypto_onion_pubkey` and the reference encoding are inverse to each other, so two strings never
denote one key and `validate_onion_address` accepts the reference encodings only.  Up to any of its
56 characters the decoder has written at most 35 bytes, and it ends with none of its bits left.
-/
theorem onion_address_correspondence
    (P : Primitives) :
    (∀ pk, cryptoOnionPubkey P (onionAddress P pk) = .ok pk) ∧
    (∀ s pk, cryptoOnionPubkey P s = .ok pk → s = onionAddress P pk) ∧
    (∀ s, validateOnionAddress P s = true ↔ ∃ pk, s = onionAddress P pk) ∧
    (∀ (s : Bytes) n bits out, n ≤ noxOnionB32Len →
      onionB32Loop (s.take n) 0 0 [] = .ok (bits, out) → out.length ≤ noxOnionBodyLen) ∧
    ∀ s, validateOnionAddress P s = true → ∃ out,
      onionB32Loop (s.take noxOnionB32Len) 0 0 [] = .ok (0, out) ∧
        out.length = noxOnionBodyLen := by
  have hb32 : noxOnionB32Len = 56 := rfl
  have hbody : noxOnionBodyLen = 35 := rfl
  refine ⟨cryptoOnionPubkey_onionAddress, fun s pk => eq_onionAddress_of_ok,
    validateOnionAddress_iff, fun s n bits out hn hrun => ?_, fun s hs => ?_⟩
  · obtain ⟨-, hsize⟩ := onionB32Loop_size hrun
    rw [List.length_take] at hsize
    omega
  · obtain ⟨pk, haddr⟩ := (validateOnionAddress_iff s).mp hs
    obtain ⟨acc', bits', out, hrun, hdec⟩ := onionB32Loop_digits decoding_start
      (digits 32 noxOnionB32Len (bytesValue (onionBody P pk))) (digits_lt (by omega) _ _)
    obtain ⟨-, hfew, hsize, -⟩ := hdec
    rw [List.nil_append, digits_length] at hsize
    have hzero : bits' = 0 := by omega
    subst hzero
    refine ⟨out, ?_, by omega⟩
    rw [haddr, onionAddress, List.take_left' (base32_length _)]
    exact hrun

/-- 56 characters of the base32 alphabet, and the suffix. -/
def AddressForm (s : Bytes) : Prop :=
  ∃ cs, s = cs ++ onionSuffix ∧ cs.length = noxOnionB32Len ∧ ∀ c ∈ cs, b32Value c ≠ none

/-- The last byte is the version 3, and the two before it are the checksum. -/
def BodyValid (P : Primitives) (body : Bytes) : Prop :=
  body.getD 34 0 = 3 ∧ onionChecksum P (body.take 32) = (body.drop 32).take 2

/-- A string of that form is accepted by `validate_onion_address` if its body is valid. -/
theorem validateOnionAddress_eq
    {P : Primitives} {s body : Bytes} (hform : validateOnionInput s = true)
    (hbody : onionB32Decode s = .ok body) :
    validateOnionAddress P s = true ↔ BodyValid P body := by
  unfold validateOnionAddress
  rw [cryptoOnionPubkey_eq hform hbody]
  unfold BodyValid
  split
  · rename_i hversion
    exact ⟨(fun h => by cases h), fun h => absurd h.1 hversion⟩
  · rename_i hversion
    split
    · rename_i hcheck
      exact ⟨(fun h => by cases h), fun h => absurd h.2 hcheck⟩
    · rename_i hcheck
      exact ⟨fun _ => ⟨not_not.mp hversion, not_not.mp hcheck⟩, fun _ => rfl⟩

/--
`validate_onion_input` and `validate_onion_address` agree on a string exactly if it does not have
the form of an address or its version and checksum are right.
-/
theorem onion_validators_agree_iff
    (P : Primitives) (s : Bytes) :
    (validateOnionInput s = true ↔ validateOnionAddress P s = true) ↔
      (AddressForm s → ∀ body, onionB32Decode s = .ok body → BodyValid P body) := by
  constructor
  · intro hagree hform body hbody
    have hinput := (validateOnionInput_iff s).mpr hform
    exact (validateOnionAddress_eq hinput hbody).mp (hagree.mp hinput)
  · intro hcond
    constructor
    · intro hinput
      obtain ⟨cs, hs, hlen, hcs⟩ := (validateOnionInput_iff s).mp hinput
      obtain ⟨vs, hvs, hcv⟩ := exists_values hcs
      obtain ⟨body, hbody, -, -⟩ := onionB32Decode_digits hvs
        (by rw [← hlen, hcv, List.length_map]) onionSuffix
      rw [← hcv, ← hs] at hbody
      exact (validateOnionAddress_eq hinput hbody).mpr (hcond ⟨cs, hs, hlen, hcs⟩ body hbody)
    · intro haddress
      unfold validateOnionAddress at haddress
      generalize hres : cryptoOnionPubkey P s = r at haddress
      cases r with
      | error err =>
          cases haddress
      | ok pk =>
          exact cryptoOnionPubkey_form hres

/-- 56 times 'a' and the suffix: the version byte is 0. -/
theorem onion_validators_differ :
    validateOnionInput (List.replicate 56 0x61 ++ onionSuffix) = true ∧
      validateOnionAddress samplePrimitives (List.replicate 56 0x61 ++ onionSuffix) = false := by
  decide +kernel

end App
end Noxtor
