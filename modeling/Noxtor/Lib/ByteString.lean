import Mathlib.Data.Vector.Basic
import Mathlib.Data.List.TakeDrop
import Mathlib.Tactic

/-!
# Byte strings and fixed-size blocks

A byte string is a list of bytes.  A block of `n` bytes, the value of a C array
`uint8_t x[n]`, is a byte string that carries the proof of its length.

The module also fixes the two integer encodings that wire formats use: four bytes
in network order and eight bytes with the low byte first.
-/

namespace ByteString

/-- A byte string of any length. -/
abbrev Bytes := List UInt8

/-- A byte array of exactly `n` bytes. -/
abbrev Block (n : Nat) := List.Vector UInt8 n

namespace Block

/-- The block of `n` zero bytes. -/
def zero (n : Nat) : Block n :=
  ⟨List.replicate n 0, List.length_replicate⟩

/-- The first `n` bytes of a byte string; missing bytes read as zero. -/
def ofBytes (n : Nat) (l : Bytes) : Block n :=
  ⟨l.takeD n 0, List.takeD_length n l 0⟩

theorem ofBytes_append
    {n : Nat} (b : Block n) (rest : Bytes) :
    ofBytes n (b.toList ++ rest) = b := by
  apply Subtype.ext
  show (b.toList ++ rest).takeD n 0 = b.toList
  have hb : b.toList.length = n := b.toList_length
  rw [List.takeD_eq_take]
  · exact List.take_left' hb
  · simp

theorem ofBytes_toList
    {n : Nat} (b : Block n) :
    ofBytes n b.toList = b := by
  have h := ofBytes_append b []
  simpa using h

/-- A byte string that is long enough is not padded. -/
theorem toList_ofBytes_of_le
    {n : Nat} {l : Bytes} (h : n ≤ l.length) :
    (ofBytes n l).toList = l.take n := by
  show l.takeD n 0 = l.take n
  exact List.takeD_eq_take 0 h

/-- A byte string that fits is padded with zeros. -/
theorem toList_ofBytes_of_ge
    {n : Nat} {l : Bytes} (h : l.length ≤ n) :
    (ofBytes n l).toList = l ++ List.replicate (n - l.length) 0 := by
  show l.takeD n 0 = l ++ List.replicate (n - l.length) 0
  induction l generalizing n with
  | nil =>
      simp
  | cons b l ih =>
      cases n with
      | zero =>
          simp at h
      | succ n =>
          have h' : l.length ≤ n := by simpa using h
          simp [ih h']

@[simp] theorem toList_zero
    (n : Nat) :
    (zero n).toList = List.replicate n 0 := by
  rfl

end Block

/-- Four bytes, most significant first. -/
def be32 (x : UInt32) : Bytes :=
  [UInt8.ofNat (x.toNat / 2 ^ 24), UInt8.ofNat (x.toNat / 2 ^ 16),
    UInt8.ofNat (x.toNat / 2 ^ 8), UInt8.ofNat x.toNat]

/-- The 32-bit number written by four bytes, most significant first. -/
def ofBe32 (b0 b1 b2 b3 : UInt8) : UInt32 :=
  UInt32.ofNat
    (b0.toNat * 2 ^ 24 + b1.toNat * 2 ^ 16 + b2.toNat * 2 ^ 8 + b3.toNat)

@[simp] theorem be32_length
    (x : UInt32) :
    (be32 x).length = 4 := by
  rfl

/-- Decoding undoes encoding. -/
theorem ofBe32_be32
    (x : UInt32) :
    ofBe32 (UInt8.ofNat (x.toNat / 2 ^ 24)) (UInt8.ofNat (x.toNat / 2 ^ 16))
      (UInt8.ofNat (x.toNat / 2 ^ 8)) (UInt8.ofNat x.toNat) = x := by
  have hx : x.toNat < 2 ^ 32 := x.toNat_lt
  apply UInt32.toNat_inj.mp
  simp only [ofBe32, UInt32.toNat_ofNat', UInt8.toNat_ofNat']
  omega

/-- Eight bytes, most significant first. -/
def be64 (x : Nat) : Bytes :=
  (List.range 8).map (fun i => UInt8.ofNat (x / 2 ^ (8 * (7 - i))))

/-- The number written by bytes, most significant first. -/
def ofBe (b : Bytes) : Nat :=
  b.foldl (fun acc c => acc * 256 + c.toNat) 0

@[simp] theorem be64_length
    (x : Nat) :
    (be64 x).length = 8 := by
  rfl

/-- The number is read back from its eight bytes. -/
theorem ofBe_be64
    {x : Nat} (hx : x < 2 ^ 64) :
    ofBe (be64 x) = x := by
  simp only [ofBe, be64, List.range_succ, List.range_zero, List.map_cons, List.map_nil,
    List.nil_append, List.cons_append, List.foldl_cons, List.foldl_nil, UInt8.toNat_ofNat']
  norm_num
  omega

/-- A lower-case hexadecimal digit. -/
def hexDigit (n : Nat) : UInt8 :=
  if n < 10 then UInt8.ofNat (0x30 + n) else UInt8.ofNat (0x57 + n)

/-- Two hexadecimal digits for each byte. -/
def hex (b : Bytes) : Bytes :=
  b.flatMap (fun c => [hexDigit (c.toNat / 16), hexDigit (c.toNat % 16)])

/-- Eight bytes, least significant first. -/
def le64 (x : UInt64) : Bytes :=
  (List.range 8).map (fun i => UInt8.ofNat (x.toNat / 2 ^ (8 * i)))

@[simp] theorem le64_length
    (x : UInt64) :
    (le64 x).length = 8 := by
  rfl

/-- The eight bytes determine the number. -/
theorem le64_injective
    {x y : UInt64} (h : le64 x = le64 y) :
    x = y := by
  have hx : x.toNat < 2 ^ 64 := x.toNat_lt
  have hy : y.toNat < 2 ^ 64 := y.toNat_lt
  have hbyte : ∀ i < 8, x.toNat / 2 ^ (8 * i) % 256 = y.toNat / 2 ^ (8 * i) % 256 := by
    intro i hi
    have h1 := congrArg (fun l => (l[i]?).map UInt8.toNat) h
    simpa [le64, hi] using h1
  have h0 := hbyte 0 (by decide)
  have h1 := hbyte 1 (by decide)
  have h2 := hbyte 2 (by decide)
  have h3 := hbyte 3 (by decide)
  have h4 := hbyte 4 (by decide)
  have h5 := hbyte 5 (by decide)
  have h6 := hbyte 6 (by decide)
  have h7 := hbyte 7 (by decide)
  apply UInt64.toNat_inj.mp
  norm_num at h0 h1 h2 h3 h4 h5 h6 h7
  omega

end ByteString
