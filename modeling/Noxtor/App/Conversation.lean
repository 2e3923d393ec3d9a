import Noxtor.App.FileRoundTrip
import Noxtor.App.Segmentation
import Noxtor.App.SlotTrace

/-!
# A conversation

Two programs whose slots are in session with each other.  Lines are typed at either end, the bytes
on the way arrive in pieces of any size, and all of this in any order.

What has arrived at one end is a prefix of what the other end has sent (`Listens`), and what an end
has sent is one frame for each of its texts (`Speaks`): the segments of the lines, and the texts of
the queue, which the first text of the session sets free.  Receiving leaves the counters of the
sender alone and sending those of the receiver, so both hold after every step at either end.
-/

namespace Noxtor
namespace App

open ByteString Noise

/-- One end: its slot, the bytes that have arrived, the texts it has sent, and how many bytes it had
sent before the conversation. -/
structure TalkEnd where
  view : View
  got : Bytes
  said : List Bytes
  before : Nat

/-- What happens at one end. -/
inductive TalkAct where
  | type (msg : Bytes)
  | arrive (n : Nat)
deriving DecidableEq

/-- Both ends. -/
abbrev Talk := Bool → TalkEnd

/-- The texts that the queue of slot `i` was asked to send. -/
def queueSends (i : Slot) (log : List Effect) : List Bytes :=
  log.filterMap fun
    | .queueSend j _ text _ => if j = i then some text else none
    | _ => none

/-- The texts that a line adds. -/
def saidBy (msg : Bytes) : Except NoxErr Unit → List Bytes
  | .ok _ => segments msg
  | .error _ => []

section Steps

variable (P : Primitives) (E : Bool → Env) (i : Bool → Slot) (fd : Bool → Int)

/-- What end `x` has sent since the beginning. -/
def stream (t : Talk) (x : Bool) : Bytes :=
  (sentOn (i x) (t x).view.sh.log).drop (t x).before

/-- What is on its way to end `x`. -/
def inFlight (t : Talk) (x : Bool) : Bytes :=
  (stream i t (!x)).drop (t x).got.length

/-- The end after a line has been typed. -/
def typeAt (x : Bool) (msg : Bytes) (e : TalkEnd) : TalkEnd :=
  let r := sendSegmentedMessageTo P (E x) (i x) msg e.view
  { e with
    view := r.2
    said := e.said ++ saidBy msg r.1 }

/-- The end after `recv` has returned bytes. -/
def arriveAt (x : Bool) (chunk : Bytes) (e : TalkEnd) : TalkEnd :=
  let v := processPeerFrames P (E x) (i x) (fd x) (deliver chunk e.view)
  { e with
    view := v
    got := e.got ++ chunk
    said := e.said ++ (queueSends (i x) v.sh.log).drop (queueSends (i x) e.view.sh.log).length }

/-- One step at end `x`; `recv` returns at most what fits into the buffer. -/
def talkStep (t : Talk) : Bool × TalkAct → Talk
  | (x, .type msg) => Function.update t x (typeAt P E i x msg (t x))
  | (x, .arrive n) =>
      let chunk := (inFlight i t x).take (min n (recvBufCapacity - (t x).view.ps.recv.length))
      if chunk = [] then t else Function.update t x (arriveAt P E i fd x chunk (t x))

end Steps

/-- The slot has not been torn down, and the counter of the cipher is not exhausted. -/
def Steady (v : View) : Prop :=
  (v.ps.session.any fun s => s.tx.n < uint64Max) = true

instance (v : View) : Decidable (Steady v) :=
  inferInstanceAs (Decidable (_ = _))

/-- Both slots are in session. -/
def BothSteady (t : Talk) : Prop :=
  Steady (t false).view ∧ Steady (t true).view

instance (t : Talk) : Decidable (BothSteady t) :=
  inferInstanceAs (Decidable (_ ∧ _))

/-- The slots stay in session over the whole conversation. -/
def StaysUp (P : Primitives) (E : Bool → Env) (i : Bool → Slot) (fd : Bool → Int) :
    Talk → List (Bool × TalkAct) → Prop
  | t, [] => BothSteady t
  | t, act :: acts => BothSteady t ∧ StaysUp P E i fd (talkStep P E i fd t act) acts

instance decidableStaysUp (P : Primitives) (E : Bool → Env) (i : Bool → Slot) (fd : Bool → Int) :
    (acts : List (Bool × TalkAct)) → (t : Talk) → Decidable (StaysUp P E i fd t acts)
  | [], t => inferInstanceAs (Decidable (BothSteady t))
  | act :: acts, t =>
      have := decidableStaysUp P E i fd acts (talkStep P E i fd t act)
      inferInstanceAs (Decidable (_ ∧ _))

/-- The records of texts. -/
def textRecords (texts : List Bytes) : List (UInt8 × Bytes) :=
  texts.map fun text => (noxMsgText, text ++ [0])

/-- Their frames. -/
def talkFrames (P : Primitives) (k : Key) (texts : List Bytes) : List (UInt8 × Bytes) :=
  sealRecords P k 0 (textRecords texts)

/-- Texts that fit into a frame each, and not more of them than there are nonces. -/
structure FitTexts (texts : List Bytes) : Prop where
  count : texts.length < 2 ^ 64
  size : ∀ text ∈ texts, text.length ≤ 4095

/-- An end at the beginning: in session under the two keys, with all counters at zero. -/
structure Begins (k k' : Key) (i : Slot) (e : TalkEnd) : Prop where
  live : LiveSession e.view
  session : ∃ s, e.view.ps.session = some s ∧ s.tx = { k := k, n := 0, hasKey := true } ∧
    s.rx = { k := k', n := 0, hasKey := true }
  txSeq : e.view.ps.txSeq = 0
  rxSeq : e.view.ps.rxSeq = 0
  recv : e.view.ps.recv = []
  got : e.got = []
  said : e.said = []
  before : e.before = (sentOn i e.view.sh.log).length

/-- The sending half of a slot: one frame for each of the texts behind `base`. -/
structure Speaks (P : Primitives) (k : Key) (i : Slot) (base : Bytes) (v : View)
    (texts : List Bytes) : Prop where
  session : v.ps.session.map NoiseSession.tx =
    some { k := k, n := UInt64.ofNat texts.length, hasKey := true }
  number : v.ps.txSeq = UInt32.ofNat texts.length
  wire : sentOn i v.sh.log = base ++ encodeFrames 0 (talkFrames P k texts)
  live : v.ps.state ≠ .idle
  fd : 0 ≤ v.ps.fd
  fits : FitTexts texts

section Speaking

variable {P : Primitives} {E : Env} {i : Slot} {k : Key} {base : Bytes} {v w : View}
  {texts : List Bytes}

/-- Only the sending half matters. -/
theorem Speaks.congr
    (h : Speaks P k i base v texts)
    (hsession : w.ps.session.map NoiseSession.tx = v.ps.session.map NoiseSession.tx)
    (hnumber : w.ps.txSeq = v.ps.txSeq) (hwire : sentOn i w.sh.log = sentOn i v.sh.log)
    (hlive : w.ps.state ≠ .idle) (hfd : 0 ≤ w.ps.fd) :
    Speaks P k i base w texts :=
  ⟨hsession.trans h.session, hnumber.trans h.number, hwire.trans h.wire, hlive, hfd, h.fits⟩

/-- Decryption leaves the sending half of a session alone. -/
theorem noiseDecrypt_tx
    (session : Option NoiseSession) (ct : Buf) (out : Bool) :
    (noiseDecrypt P session ct out).2.map NoiseSession.tx = session.map NoiseSession.tx := by
  cases session with
  | none =>
      rfl
  | some s =>
      simp only [noiseDecrypt]
      split_ifs <;> rfl

end Speaking

section Hearing

variable {P : Primitives} {E : Env} {i j : Slot} {k : Key} {base : Bytes} {v v0 w : View}
  {fd : Int} {got : Bytes} {texts said : List Bytes} {m : Nat}

/-- What has arrived is the beginning of the frames of `texts`, whatever is said after them. -/
def Listens (P : Primitives) (k : Key) (i : Slot) (v0 w : View) (got : Bytes) (texts : List Bytes)
    (m : Nat) : Prop :=
  m ≤ texts.length ∧ ∀ more, FitTexts (texts ++ more) →
    Arrived P i v0 w got (talkFrames P k (texts ++ more)) (textRecords (texts ++ more)) m

/-- Saying more does not change what has been heard. -/
theorem Listens.more
    (h : Listens P k i v0 w got texts m) (new : List Bytes) :
    Listens P k i v0 w got (texts ++ new) m := by
  refine ⟨?_, fun more hfit => ?_⟩
  · rw [List.length_append]
    exact Nat.le_add_right_of_le h.1
  · rw [List.append_assoc] at hfit ⊢
    exact h.2 _ hfit

theorem Listens.between
    (h : Listens P k i v0 w got texts m) {u : View} (hrx : rxView i u = rxView i w) :
    Listens P k i v0 u got texts m :=
  ⟨h.1, fun more hfit => (h.2 more hfit).between hrx⟩

end Hearing

section Runs

variable {P : Primitives} {E : Bool → Env} {i : Bool → Slot} {fd : Bool → Int} {k : Bool → Key}
  {t t0 : Talk} {x : Bool}

/-- End `x` since `t0`: what it has sent, and what it has heard of the other end. -/
structure TalkInv (P : Primitives) (i : Bool → Slot) (k : Bool → Key) (t0 t : Talk) (x : Bool) :
    Prop where
  speaks : Speaks P (k x) (i x) (sentOn (i x) (t0 x).view.sh.log) (t x).view (t x).said
  before : (t x).before = (sentOn (i x) (t0 x).view.sh.log).length
  listens : ∃ m, Listens P (k !x) (i x) (t0 x).view (t x).view (t x).got (t !x).said m

theorem TalkInv.stream
    (h : TalkInv P i k t0 t x) :
    stream i t x = encodeFrames 0 (talkFrames P (k x) (t x).said) := by
  unfold App.stream
  rw [h.speaks.wire, h.before, List.drop_left]

/-- What has arrived is the beginning of what the other end has sent. -/
theorem TalkInv.got
    (hbegin : ∀ x, Begins (k x) (k !x) (i x) (t0 x)) (h : ∀ x, TalkInv P i k t0 t x) (x : Bool) :
    (t x).got <+: App.stream i t (!x) := by
  obtain ⟨m, hm⟩ := (h x).listens
  have hfit : FitTexts ((t !x).said ++ []) := by
    rw [List.append_nil]
    exact (h !x).speaks.fits
  have harr := hm.2 [] hfit
  rw [(h !x).stream, harr.bytes, (hbegin x).rxSeq]
  rw [List.append_nil] at harr ⊢
  generalize talkFrames P (k !x) (t !x).said = frames at harr ⊢
  have htake : (frames.take m).length = m := by
    rw [List.length_take, Nat.min_eq_left harr.count]
  have hsplit := encodeFrames_append (t0 x).view.ps.rxSeq (frames.take m) (frames.drop m)
  rw [List.take_append_drop, htake, ← harr.rxSeq, (hbegin x).rxSeq] at hsplit
  rw [hsplit, List.prefix_append_right_inj]
  exact harr.begun

/-- One end moves, and says no less than before. -/
theorem TalkInv.update
    (h : ∀ y, TalkInv P i k t0 t y) {e : TalkEnd} {new : List Bytes}
    (hspeaks : Speaks P (k x) (i x) (sentOn (i x) (t0 x).view.sh.log) e.view e.said)
    (hbefore : e.before = (t x).before) (hsaid : e.said = (t x).said ++ new)
    (hlistens : ∃ m, Listens P (k !x) (i x) (t0 x).view e.view e.got (t !x).said m) (y : Bool) :
    TalkInv P i k t0 (Function.update t x e) y := by
  have hself : Function.update t x e x = e := Function.update_self _ _ _
  have hother : Function.update t x e (!x) = t (!x) :=
    Function.update_of_ne (Bool.not_ne_self x) _ _
  by_cases hy : y = x
  · subst hy
    refine ⟨?_, ?_, ?_⟩
    · rw [hself]
      exact hspeaks
    · rw [hself, hbefore]
      exact (h y).before
    · rw [hself, hother]
      exact hlistens
  · obtain rfl : y = !x := Bool.eq_not_of_ne hy
    refine ⟨?_, ?_, ?_⟩
    · rw [hother]
      exact (h _).speaks
    · rw [hother]
      exact (h _).before
    · obtain ⟨m, hm⟩ := (h !x).listens
      rw [Bool.not_not] at hm ⊢
      rw [hother, hself, hsaid]
      exact ⟨m, hm.more new⟩

end Runs

end App
end Noxtor
