import Noxtor.Noise.Cipher
import Mathlib.Data.List.ReduceOption

/-!
# Forgeries on the receiving side

One side encrypts a sequence of plaintexts.  The other side is given any sequence of
`noise_decrypt` calls: the genuine ciphertexts, forged, cut off, oversized, replayed and
reordered ones, and calls with NULL pointers.

`follow` is what an ideal receiver does: it waits for one ciphertext after the other and
refuses everything else.  The code does the same.
-/

namespace Noxtor
namespace Noise

open ByteString

/-- The arguments of a `noise_decrypt` call on a session. -/
structure OpenCall where
  ciphertext : Buf
  out : Bool
deriving DecidableEq

/-- A proper call with ciphertext `ct`. -/
def OpenCall.of (ct : Bytes) : OpenCall :=
  { ciphertext := .data ct, out := true }

/--
The ideal receiver: `awaited` are the ciphertexts still to come, with their plaintexts.
-/
def follow : List (Bytes × Bytes) → List OpenCall → List (Option Bytes)
  | _, [] => []
  | [], _ :: calls => none :: follow [] calls
  | (ct, pt) :: awaited, c :: calls =>
      if c = OpenCall.of ct then some pt :: follow awaited calls
      else none :: follow ((ct, pt) :: awaited) calls

/-- If everything awaited is presented in order, all of it is accepted. -/
theorem follow_complete
    (awaited : List (Bytes × Bytes)) (calls : List OpenCall)
    (h : (awaited.map fun r => OpenCall.of r.1).Sublist calls) :
    (follow awaited calls).reduceOption = awaited.map Prod.snd := by
  induction calls generalizing awaited with
  | nil =>
      have hnil : awaited = [] := List.map_eq_nil_iff.mp (List.sublist_nil.mp h)
      rw [hnil]
      rfl
  | cons c calls ih =>
      cases awaited with
      | nil =>
          unfold follow
          rw [List.reduceOption_cons_of_none]
          exact ih [] (List.nil_sublist _)
      | cons r awaited =>
          obtain ⟨ct, pt⟩ := r
          unfold follow
          by_cases hc : c = OpenCall.of ct
          · rw [if_pos hc, List.reduceOption_cons_of_some, List.map_cons]
            congr 1
            apply ih
            rw [List.map_cons, hc] at h
            exact List.cons_sublist_cons.mp h
          · rw [if_neg hc, List.reduceOption_cons_of_none]
            apply ih
            rw [List.map_cons] at h ⊢
            rcases List.sublist_cons_iff.mp h with h | ⟨r, hr, -⟩
            · exact h
            · injection hr with hr
              exact absurd hr.symm hc

section Code

variable (P : Primitives)

/-- The ciphertexts of a sequence of plaintexts, if every call succeeds. -/
def encryptAll (s : NoiseSession) : List Bytes → Option (List Bytes)
  | [] => some []
  | pt :: pts =>
      match noiseEncrypt P (some s) (.data pt) true with
      | (some ct, some s') => (encryptAll s' pts).map (ct :: ·)
      | _ => none

/-- One call of `noise_decrypt`: its result and the session it leaves. -/
def openStep (s : NoiseSession) (c : OpenCall) : Option Bytes × NoiseSession :=
  ((noiseDecrypt P (some s) c.ciphertext c.out).1,
    ((noiseDecrypt P (some s) c.ciphertext c.out).2).getD s)

/-- The results of a sequence of calls. -/
def openAll (s : NoiseSession) : List OpenCall → List (Option Bytes)
  | [] => []
  | c :: calls => (openStep P s c).1 :: openAll (openStep P s c).2 calls

/-- The calls of a sequence, each with the session in which it is made. -/
def openTrace (s : NoiseSession) : List OpenCall → List (NoiseSession × OpenCall)
  | [] => []
  | c :: calls => (s, c) :: openTrace (openStep P s c).2 calls

end Code

/--
At counter `n` exactly the ciphertexts of `awaited` open, one under each of the following
nonces.
-/
structure Awaits (P : Primitives) (k : Key) (n : UInt64) (awaited : List (Bytes × Bytes)) :
    Prop where
  opens : ∀ j r, awaited[j]? = some r →
    n.toNat + j < 2 ^ 64 - 1 ∧ r.1.length ≤ noiseMaxPayloadLen ∧
      P.aeadDecrypt k (encodeNonce (UInt64.ofNat (n.toNat + j))) [] r.1 = some r.2
  only : ∀ (m : UInt64) ct pt, n.toNat ≤ m.toNat →
    P.aeadDecrypt k (encodeNonce m) [] ct = some pt →
    ∃ j r, m.toNat = n.toNat + j ∧ awaited[j]? = some r ∧ r.1 = ct

section Facts

variable {P : Primitives} {k : Key}

theorem Awaits.tail
    {n : UInt64} {r : Bytes × Bytes} {awaited : List (Bytes × Bytes)}
    (h : Awaits P k n (r :: awaited)) :
    Awaits P k (n + 1) awaited := by
  have hlt := (h.opens 0 r rfl).1
  have hsucc : (n + 1).toNat = n.toNat + 1 := by
    apply toNat_succ_of_lt
    apply UInt64.lt_iff_toNat_lt.mpr
    rw [uint64Max_toNat]
    omega
  constructor
  · intro j r' hr'
    have hj := h.opens (j + 1) r' hr'
    rw [hsucc, show n.toNat + 1 + j = n.toNat + (j + 1) by omega]
    exact hj
  · intro m ct pt hm hd
    rw [hsucc] at hm ⊢
    obtain ⟨j, r', hj, hr', hct⟩ := h.only m ct pt (by omega) hd
    cases j with
    | zero =>
        omega
    | succ j =>
        exact ⟨j, r', by omega, hr', hct⟩

/-- The awaited ciphertext is accepted, and the counter moves on. -/
theorem openStep_awaited
    {s : NoiseSession} (hk : s.rx.hasKey = true) {ct pt : Bytes}
    {awaited : List (Bytes × Bytes)} (h : Awaits P s.rx.k s.rx.n ((ct, pt) :: awaited)) :
    openStep P s (.of ct) = (some pt, { s with rx := { s.rx with n := s.rx.n + 1 } }) := by
  obtain ⟨hlt, hmax, hd⟩ := h.opens 0 (ct, pt) rfl
  rw [Nat.add_zero, UInt64.ofNat_toNat] at hd
  have hmin := P.aeadDecrypt_length _ _ _ _ _ hd
  have hn : ¬ s.rx.n ≥ uint64Max := by
    intro hge
    have h1 := UInt64.le_iff_toNat_le.mp hge
    rw [uint64Max_toNat] at h1
    omega
  have h1 : ¬ ct.length > noiseMaxPayloadLen := Nat.not_lt.mpr hmax
  have h2 : ¬ ct.length < noxMacLen := by
    unfold noxMacLen
    dsimp only at hmin
    omega
  simp [openStep, OpenCall.of, noiseDecrypt, cipherDecrypt, h1, h2, hk, hn, hd]

/-- Anything else is refused, and the session stays as it is. -/
theorem openStep_refused
    {s : NoiseSession} (hk : s.rx.hasKey = true) {awaited : List (Bytes × Bytes)}
    (h : Awaits P s.rx.k s.rx.n awaited) {c : OpenCall}
    (hc : ∀ r ∈ awaited.head?, c ≠ OpenCall.of r.1) :
    openStep P s c = (none, s) := by
  have hnone : (noiseDecrypt P (some s) c.ciphertext c.out).1 = none := by
    by_contra hsome
    obtain ⟨pt, hpt⟩ := Option.ne_none_iff_exists'.mp hsome
    obtain ⟨ct, hbuf, hout, -, hd⟩ := noiseDecrypt_accepts hk hpt
    obtain ⟨j, r, hj, hr, hct⟩ := h.only _ _ _ (Nat.le_refl _) hd
    have hj0 : j = 0 := by omega
    subst hj0
    rw [← List.head?_eq_getElem?] at hr
    apply hc r hr
    cases c
    simp only at hbuf hout
    rw [hbuf, hout, hct]
    rfl
  unfold openStep
  rw [noiseDecrypt_none hnone, hnone]
  rfl

/-- A sequence of calls does what the ideal receiver does. -/
theorem openAll_follow
    {s : NoiseSession} (hk : s.rx.hasKey = true) (awaited : List (Bytes × Bytes))
    (h : Awaits P s.rx.k s.rx.n awaited) (calls : List OpenCall) :
    openAll P s calls = follow awaited calls := by
  induction calls generalizing s awaited with
  | nil =>
      cases awaited <;> rfl
  | cons c calls ih =>
      cases awaited with
      | nil =>
          have hstep := openStep_refused hk h (c := c) (by intro r hr; cases hr)
          unfold openAll follow
          rw [hstep]
          exact congrArg _ (ih hk [] h)
      | cons r awaited =>
          obtain ⟨ct, pt⟩ := r
          unfold openAll follow
          by_cases hc : c = OpenCall.of ct
          · rw [if_pos hc, hc, openStep_awaited hk h]
            exact congrArg _ (ih (s := { s with rx := { s.rx with n := s.rx.n + 1 } }) hk
              awaited h.tail)
          · have hstep := openStep_refused hk h (c := c) (by
              intro r hr
              cases hr
              exact hc)
            rw [if_neg hc, hstep]
            exact congrArg _ (ih hk _ h)

/-- What a sequence of successful encryptions leaves: the ciphertexts of consecutive nonces. -/
theorem encryptAll_sealed
    {s : NoiseSession} (hk : s.tx.hasKey = true) {pts cts : List Bytes}
    (h : encryptAll P s pts = some cts) :
    cts.length = pts.length ∧
    ∀ j ct pt, cts[j]? = some ct → pts[j]? = some pt →
      s.tx.n.toNat + j < 2 ^ 64 - 1 ∧ pt.length ≤ noxMaxMsgLen ∧
        ct = P.aeadEncrypt s.tx.k (encodeNonce (UInt64.ofNat (s.tx.n.toNat + j))) [] pt := by
  induction pts generalizing s cts with
  | nil =>
      cases h
      exact ⟨rfl, fun j ct pt hct => by simp at hct⟩
  | cons pt pts ih =>
      unfold encryptAll at h
      by_cases hlen : pt.length ≤ noxMaxMsgLen
      · rcases noiseEncrypt_cases (P := P) hk hlen with ⟨hlt, heq⟩ | ⟨-, heq⟩
        · rw [heq] at h
          obtain ⟨rest, hrest, rfl⟩ := Option.map_eq_some_iff.mp h
          obtain ⟨hl, hall⟩ := ih (s := { s with tx := { s.tx with n := s.tx.n + 1 } }) hk hrest
          refine ⟨by simp [hl], ?_⟩
          intro j ct' pt' hct hpt
          cases j with
          | zero =>
              cases hct
              cases hpt
              have h1 := UInt64.lt_iff_toNat_lt.mp hlt
              rw [uint64Max_toNat] at h1
              exact ⟨by omega, hlen, by rw [Nat.add_zero, UInt64.ofNat_toNat]⟩
          | succ j =>
              have hj := hall j ct' pt' hct hpt
              simp only [toNat_succ_of_lt hlt] at hj
              rw [show s.tx.n.toNat + (j + 1) = s.tx.n.toNat + 1 + j by omega]
              exact hj
        · rw [heq] at h
          cases h
      · have hrej : noiseEncrypt P (some s) (.data pt) true = (none, some s) := by
          simp [noiseEncrypt, Nat.lt_of_not_le hlen]
        rw [hrej] at h
        cases h

end Facts

/--
The receiver of a session refuses everything but the next genuine ciphertext: the results are
those of the ideal receiver, a call that fails leaves the session unchanged, and if all
genuine ciphertexts are presented in order then all plaintexts come out.

`hopen` and `hauth` say what the AEAD does under this key: the genuine ciphertexts open, each
under its nonce, and nothing else opens.
-/
theorem forgeries_do_not_desynchronise
    (P : Primitives) (sender receiver : NoiseSession) (pts genuine : List Bytes)
    (calls : List OpenCall)
    (htx : sender.tx.hasKey = true) (hrx : receiver.rx = sender.tx)
    (hsent : encryptAll P sender pts = some genuine)
    (hopen : ∀ (j : Nat) ct pt, genuine[j]? = some ct → pts[j]? = some pt →
      P.aeadDecrypt sender.tx.k (encodeNonce (UInt64.ofNat (sender.tx.n.toNat + j))) [] ct = some pt)
    (hauth : ∀ (m : UInt64) ct pt, P.aeadDecrypt sender.tx.k (encodeNonce m) [] ct = some pt →
      ∃ j, m.toNat = sender.tx.n.toNat + j ∧ genuine[j]? = some ct) :
    openAll P receiver calls = follow (genuine.zip pts) calls ∧
    (∀ t ∈ openTrace P receiver calls,
      (openStep P t.1 t.2).1 = none → (openStep P t.1 t.2).2 = t.1) ∧
    ((genuine.map OpenCall.of).Sublist calls → (openAll P receiver calls).reduceOption = pts) := by
  obtain ⟨hlen, hall⟩ := encryptAll_sealed htx hsent
  have hawaits : Awaits P receiver.rx.k receiver.rx.n (genuine.zip pts) := by
    rw [hrx]
    constructor
    · intro j r hr
      obtain ⟨hct, hpt⟩ := List.getElem?_zip_eq_some.mp hr
      obtain ⟨h1, h2, h3⟩ := hall j r.1 r.2 hct hpt
      refine ⟨h1, ?_, hopen j r.1 r.2 hct hpt⟩
      rw [h3, P.aeadEncrypt_length]
      unfold noiseMaxPayloadLen noxMacLen
      omega
    · intro m ct pt _ hd
      obtain ⟨j, hj, hct⟩ := hauth m ct pt hd
      have hjlt : j < pts.length := by
        rw [← hlen]
        exact (List.getElem?_eq_some_iff.mp hct).1
      refine ⟨j, (ct, pts[j]), hj, ?_, rfl⟩
      apply List.getElem?_zip_eq_some.mpr
      exact ⟨hct, List.getElem?_eq_getElem hjlt⟩
  have hkey : receiver.rx.hasKey = true := by
    rw [hrx]
    exact htx
  have hfollow := openAll_follow hkey _ hawaits calls
  refine ⟨hfollow, ?_, ?_⟩
  · intro t _ hnone
    unfold openStep at hnone ⊢
    rw [noiseDecrypt_none hnone]
    rfl
  · intro hsub
    rw [hfollow, follow_complete]
    · exact List.map_snd_zip (Nat.le_of_eq hlen.symm)
    · have hmap : (genuine.zip pts).map (fun r => OpenCall.of r.1) = genuine.map OpenCall.of := by
        show (genuine.zip pts).map (OpenCall.of ∘ Prod.fst) = _
        rw [← List.map_map, List.map_fst_zip (Nat.le_of_eq hlen)]
      rw [hmap]
      exact hsub

/--
`samplePrimitives`, with an `aeadDecrypt` that opens only the plaintexts of `pts`, each under
the nonce of its place.
-/
def strictPrimitives (pts : List Bytes) : Primitives :=
  { samplePrimitives with
    aeadDecrypt := fun k n ad ct =>
      (samplePrimitives.aeadDecrypt k n ad ct).filter fun pt =>
        (List.range pts.length).any fun j =>
          n = encodeNonce (UInt64.ofNat j) ∧ pts[j]? = some pt
    aeadDecrypt_length := fun k n ad ct pt h =>
      samplePrimitives.aeadDecrypt_length k n ad ct pt (Option.filter_eq_some_iff.mp h).1 }

theorem samplePrimitives_opens
    {k : Key} {n : Block 12} {ad ct pt : Bytes}
    (h : samplePrimitives.aeadDecrypt k n ad ct = some pt) :
    ct = samplePrimitives.aeadEncrypt k n ad pt := by
  simp only [samplePrimitives] at h ⊢
  split at h
  · rename_i hct
    cases h
    rw [← hct.2, List.take_append_drop]
  · cases h

/-- A plaintext of the list is opened under the nonce of its place. -/
theorem strictPrimitives_open
    {pts : List Bytes} (k : Key) (ad : Bytes) {n : UInt64} {pt : Bytes}
    (h : pts[n.toNat]? = some pt) :
    (strictPrimitives pts).aeadDecrypt k (encodeNonce n) ad
      ((strictPrimitives pts).aeadEncrypt k (encodeNonce n) ad pt) = some pt := by
  have hlt : n.toNat < pts.length := (List.getElem?_eq_some_iff.mp h).1
  apply Option.filter_eq_some_iff.mpr
  refine ⟨samplePrimitives_open_seal _ _ _ _, ?_⟩
  simp only [List.any_eq_true, List.mem_range]
  refine ⟨n.toNat, hlt, ?_⟩
  simp [h]

/-- Nothing else is opened. -/
theorem strictPrimitives_only
    {pts : List Bytes} (hlen : pts.length < 2 ^ 64) {k : Key} {ad : Bytes} {n : UInt64}
    {ct pt : Bytes} (h : (strictPrimitives pts).aeadDecrypt k (encodeNonce n) ad ct = some pt) :
    pts[n.toNat]? = some pt ∧
      ct = (strictPrimitives pts).aeadEncrypt k (encodeNonce n) ad pt := by
  obtain ⟨hopen, hany⟩ := Option.filter_eq_some_iff.mp h
  simp only [List.any_eq_true, List.mem_range, decide_eq_true_eq] at hany
  obtain ⟨j, hj, hn, hpt⟩ := hany
  have hnj : n.toNat = j := by
    rw [encodeNonce_injective hn]
    exact Nat.mod_eq_of_lt (by omega)
  rw [hnj]
  exact ⟨hpt, samplePrimitives_opens hopen⟩

/-- A sender and its receiver. -/
def sampleSender : NoiseSession :=
  { tx := cipherInitKey (samplePair 1).pub
    rx := cipherInitKey (samplePair 2).pub
    remoteStatic := (samplePair 3).pub }

def sampleReceiver : NoiseSession :=
  { tx := cipherInitKey (samplePair 2).pub
    rx := cipherInitKey (samplePair 1).pub
    remoteStatic := (samplePair 4).pub }

/-- The two plaintexts that are sent. -/
def samplePlaintexts : List Bytes :=
  [[1, 2], [3]]

/-- The ciphertexts made of them. -/
def sampleGenuine : List Bytes :=
  [samplePrimitives.aeadEncrypt (samplePair 1).pub (encodeNonce 0) [] [1, 2],
    samplePrimitives.aeadEncrypt (samplePair 1).pub (encodeNonce 1) [] [3]]

/-- A forgery, the first ciphertext, its replay, a NULL pointer and the second ciphertext. -/
theorem forgeries_do_not_desynchronise_sample :
    openAll (strictPrimitives samplePlaintexts) sampleReceiver
      ((OpenCall.of (List.replicate 20 0) :: sampleGenuine.map OpenCall.of).insertIdx 2
        { ciphertext := .null 40, out := true }) =
      [none, some [1, 2], none, some [3]] := by
  have hmain := forgeries_do_not_desynchronise (strictPrimitives samplePlaintexts) sampleSender
    sampleReceiver samplePlaintexts sampleGenuine
    ((OpenCall.of (List.replicate 20 0) :: sampleGenuine.map OpenCall.of).insertIdx 2
      { ciphertext := .null 40, out := true })
    rfl rfl (by decide +kernel)
    (by
      intro j ct pt hct hpt
      match j with
      | 0 =>
          cases hct
          cases hpt
          exact strictPrimitives_open _ _ rfl
      | 1 =>
          cases hct
          cases hpt
          exact strictPrimitives_open (n := 1) _ _ rfl
      | j + 2 =>
          simp [sampleGenuine] at hct)
    (by
      intro m ct pt hd
      obtain ⟨hpt, hct⟩ := strictPrimitives_only (by decide) hd
      refine ⟨m.toNat, by simp [sampleSender, cipherInitKey], ?_⟩
      have hlt := (List.getElem?_eq_some_iff.mp hpt).1
      have hm : m.toNat = 0 ∨ m.toNat = 1 := by
        simp only [samplePlaintexts, List.length_cons, List.length_nil] at hlt
        omega
      rcases hm with hm | hm
      · have hm0 : m = 0 := UInt64.toNat_inj.mp hm
        subst hm0
        cases hpt
        rw [hct]
        rfl
      · have hm1 : m = 1 := UInt64.toNat_inj.mp hm
        subst hm1
        cases hpt
        rw [hct]
        rfl)
  rw [hmain.1]
  decide +kernel

end Noise
end Noxtor
