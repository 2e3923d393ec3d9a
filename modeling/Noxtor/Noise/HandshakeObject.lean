import Noxtor.Noise.Turns

/-!
# The handshake object as a state machine

Any sequence of `handshake_write`, `handshake_read` and `handshake_split` calls, with any
arguments and any allocation failures, on an object made by `handshake_init`.

A call on an open object is rejected for its arguments, rejected for being out of turn, or
takes its turn; a turn either advances the object or fails it.  A failed or split object
is closed: it is wiped, and no call changes it any more.
-/

namespace Noxtor
namespace Noise

open ByteString

/-- A call with its arguments; `session` is false if the session pointer is NULL. -/
inductive HsRequest where
  | write (call : HsCall) (payload : Buf) (out : Option Nat)
  | read (call : HsCall) (msg : Buf) (out : Option Nat)
  | split (alloc : HkdfAlloc) (session : Bool)
deriving DecidableEq

/-- What a call that returns `NOX_OK` hands back. -/
inductive HsReply where
  | message (out : Bytes)
  | payload (out : Bytes)
  | session (session : NoiseSession)
deriving DecidableEq

namespace HsReply

def isSession : HsReply → Bool
  | session _ => true
  | _ => false

end HsReply

/-- The object after a call. -/
def hsAfter {α : Type} : EStateM.Result NoxErr NoiseHandshake α → NoiseHandshake
  | .ok _ hs => hs
  | .error _ hs => hs

/-- The return value of a call. -/
def hsReturn {α : Type} : EStateM.Result NoxErr NoiseHandshake α → Except NoxErr α
  | .ok a _ => .ok a
  | .error err _ => .error err

namespace HsRequest

/-- The arguments are refused up front: a NULL pointer, or a payload that is too long. -/
def BadArguments : HsRequest → Prop
  | write _ payload out =>
      out = none ∨ (payload.isNull = false ∧ payload.len > noiseMaxHandshakeLen)
  | read _ msg out => msg.isNull = true ∨ out = none
  | split _ session => session = false

/-- It is the turn of this call. -/
def InTurn (hs : NoiseHandshake) : HsRequest → Prop
  | write _ _ _ =>
      if hs.initiator then hs.msgIndex = 0 ∨ hs.msgIndex = 2 else hs.msgIndex = 1
  | read _ _ _ =>
      if hs.initiator then hs.msgIndex = 1 else hs.msgIndex = 0 ∨ hs.msgIndex = 2
  | split _ _ => hs.msgIndex = 3

/-- The index after the call has taken its turn. -/
def nextIndex (hs : NoiseHandshake) : HsRequest → Nat
  | write _ _ _ => hs.msgIndex + 1
  | read _ _ _ => hs.msgIndex + 1
  | split _ _ => hs.msgIndex

def isSplit : HsRequest → Bool
  | split _ _ => true
  | _ => false

end HsRequest

/-- The object is failed or split. -/
def NoiseHandshake.Closed (hs : NoiseHandshake) : Prop :=
  hs.failed = true ∨ hs.splitDone = true

/-- The keys, the remote keys and the transcript are zero. -/
structure NoiseHandshake.Wiped (hs : NoiseHandshake) : Prop where
  s : hs.s = Block.zero 32
  sPub : hs.sPub = Block.zero 32
  e : hs.e = Block.zero 32
  ePub : hs.ePub = Block.zero 32
  re : hs.re = Block.zero 32
  rs : hs.rs = Block.zero 32
  ck : hs.ss.ck = Block.zero 64
  h : hs.ss.h = Block.zero 64
  k : hs.ss.cs.k = Block.zero 32

section HandshakeObject

variable (P : Primitives)

/-- One call on the object. -/
def hsApply : HsRequest → HsM HsReply
  | .write call payload out => HsReply.message <$> handshakeWrite P call payload out
  | .read call msg out => HsReply.payload <$> handshakeRead P call msg out
  | .split alloc session =>
      if session then HsReply.session <$> handshakeSplit P alloc
      else fun hs => .error .proto hs

/-- The object after a sequence of calls. -/
def hsRun : NoiseHandshake → List HsRequest → NoiseHandshake
  | hs, [] => hs
  | hs, req :: reqs => hsRun (hsAfter (hsApply P req hs)) reqs

/-- The return values of a sequence of calls. -/
def hsReplies : NoiseHandshake → List HsRequest → List (Except NoxErr HsReply)
  | _, [] => []
  | hs, req :: reqs =>
      hsReturn (hsApply P req hs) :: hsReplies (hsAfter (hsApply P req hs)) reqs

/-- The number of sessions that a sequence of calls hands out. -/
def hsSessions (hs : NoiseHandshake) (reqs : List HsRequest) : Nat :=
  (hsReplies P hs reqs).countP fun
    | .ok reply => reply.isSession
    | .error _ => false

/-- What a single call does on an open object. -/
structure LiveCall (hs : NoiseHandshake) (req : HsRequest) : Prop where
  /-- Bad arguments: `NOX_ERR_PROTO`, and nothing changes. -/
  badArguments : req.BadArguments → hsApply P req hs = .error .proto hs
  /-- Out of turn: `NOX_ERR_STATE`, and nothing changes. -/
  outOfTurn : ¬ req.BadArguments → ¬ req.InTurn hs → hsApply P req hs = .error .state hs
  /-- In turn: the object advances, or fails where it stands. -/
  inTurn : ¬ req.BadArguments → req.InTurn hs →
    (∃ reply hs', hsApply P req hs = .ok reply hs' ∧ reply.isSession = req.isSplit ∧
      hs'.turn = (hs.initiator, req.nextIndex hs, req.isSplit, false) ∧
      (req.isSplit = true → hs'.Wiped)) ∨
    (∃ err hs', hsApply P req hs = .error err hs' ∧
      hs'.turn = (hs.initiator, hs.msgIndex, false, true) ∧ hs'.Wiped)

/-- What every call does on an object that a sequence of calls has reached. -/
structure ObjectState (hs : NoiseHandshake) : Prop where
  index : hs.msgIndex ≤ 3
  /-- The index counts the successful writes and reads, and those were in turn. -/
  counts : ∀ req reply hs', hsApply P req hs = .ok reply hs' →
    req.InTurn hs ∧ hs'.msgIndex = req.nextIndex hs
  fails : ∀ req err hs', hsApply P req hs = .error err hs' → hs'.msgIndex = hs.msgIndex
  /-- A session comes out of a complete handshake that has not failed. -/
  splits : ∀ req reply hs', hsApply P req hs = .ok reply hs' → reply.isSession = true →
    hs.msgIndex = 3 ∧ hs.failed = false ∧ hs.splitDone = false
  whileOpen : ¬ hs.Closed → ∀ req, LiveCall P hs req
  /-- A closed object is wiped, and every later call fails and leaves it alone. -/
  onceClosed : hs.Closed → hs.Wiped ∧ ∀ later,
    hsRun P hs later = hs ∧ ∀ reply ∈ hsReplies P hs later, ∃ err, reply = .error err

variable {P}

theorem hsM_map_ok
    {α β : Type} {f : α → β} {x : HsM α} {hs hs' : NoiseHandshake} {a : α}
    (h : x hs = .ok a hs') :
    (f <$> x) hs = .ok (f a) hs' := by
  show EStateM.map f x hs = _
  simp only [EStateM.map, h]

theorem hsM_map_error
    {α β : Type} {f : α → β} {x : HsM α} {hs hs' : NoiseHandshake} {err : NoxErr}
    (h : x hs = .error err hs') :
    (f <$> x) hs = .error err hs' := by
  show EStateM.map f x hs = _
  simp only [EStateM.map, h]

theorem not_closed_iff
    {hs : NoiseHandshake} :
    ¬ hs.Closed ↔ hs.failed = false ∧ hs.splitDone = false := by
  simp [NoiseHandshake.Closed]

theorem hsFail_wiped
    (hs : NoiseHandshake) :
    (hsFail hs).Wiped :=
  ⟨rfl, rfl, rfl, rfl, rfl, rfl, rfl, rfl, rfl⟩

theorem hsFail_turn
    {hs : NoiseHandshake} {initiator : Bool} {index : Nat}
    (h : hs.turn = (initiator, index, false, false)) :
    (hsFail hs).turn = (initiator, index, false, true) := by
  simp only [NoiseHandshake.turn, hsFail, Prod.mk.injEq] at h ⊢
  exact ⟨h.1, h.2.1, h.2.2.1, trivial⟩

/-- A turn on an open object, seen through the reply it is wrapped in. -/
theorem map_hsTurn_open
    {x : HsM Bytes} (hx : KeepsTurn x) (f : Bytes → HsReply) (y : HsM Bytes)
    {hs : NoiseHandshake} (hy : y hs = hsTurn x hs) (hopen : ¬ hs.Closed) :
    (∃ out hs', (f <$> y) hs = .ok (f out) hs' ∧
      hs'.turn = (hs.initiator, hs.msgIndex + 1, false, false)) ∨
    (∃ err hs', (f <$> y) hs = .error err hs' ∧
      hs'.turn = (hs.initiator, hs.msgIndex, false, true) ∧ hs'.Wiped) := by
  obtain ⟨hfailed, hsplit⟩ := not_closed_iff.mp hopen
  obtain ⟨out, hs', h, hturn⟩ | ⟨err, hs', h, hturn⟩ := hsTurn_cases hx hs
  · rw [hfailed, hsplit] at hturn
    exact Or.inl ⟨out, hs', hsM_map_ok (hy.trans h), hturn⟩
  · exact Or.inr ⟨err, hsFail hs', hsM_map_error (hy.trans h),
      hsFail_turn (hturn.trans (by simp [NoiseHandshake.turn, hfailed, hsplit])), hsFail_wiped hs'⟩

/-- The payload that `handshake_write` goes on with. -/
theorem handshakeWrite_open
    (call : HsCall) (payload : Buf) (outLen : Nat)
    {hs : NoiseHandshake} (hopen : ¬ hs.Closed) :
    handshakeWrite P call payload (some outLen) hs =
      if payload.isNull = false ∧ payload.len > noiseMaxHandshakeLen then .error .proto hs
      else writeTurn P call (if payload.isNull then .null 0 else payload) outLen hs := by
  obtain ⟨hfailed, hsplit⟩ := not_closed_iff.mp hopen
  simp only [handshakeWrite, hfailed, hsplit]
  cases hnull : payload.isNull <;> simp [Buf.len]

theorem writeTurn_outOfTurn
    (call : HsCall) (payload : Buf) (outLen : Nat) {hs : NoiseHandshake}
    (hturn : ¬ (if hs.initiator then hs.msgIndex = 0 ∨ hs.msgIndex = 2 else hs.msgIndex = 1)) :
    writeTurn P call payload outLen hs = .error .state hs := by
  unfold writeTurn
  split <;> simp_all

theorem readTurn_outOfTurn
    (call : HsCall) (msg : Bytes) (outCap : Nat) {hs : NoiseHandshake}
    (hturn : ¬ (if hs.initiator then hs.msgIndex = 1 else hs.msgIndex = 0 ∨ hs.msgIndex = 2)) :
    readTurn P call msg outCap hs = .error .state hs := by
  unfold readTurn
  split <;> simp_all

/-- In turn, `handshake_write` runs one of the three message functions. -/
theorem writeTurn_inTurn
    (call : HsCall) (payload : Buf) (outLen : Nat) {hs : NoiseHandshake}
    (hturn : if hs.initiator then hs.msgIndex = 0 ∨ hs.msgIndex = 2 else hs.msgIndex = 1) :
    ∃ x, KeepsTurn x ∧ writeTurn P call payload outLen hs = hsTurn x hs := by
  cases hrole : hs.initiator with
  | true =>
      rw [hrole, if_pos rfl] at hturn
      obtain hidx | hidx := hturn
      · exact ⟨writeMsg0 P call payload outLen, keepsTurn_writeMsg0 call payload outLen, by simp [writeTurn, hrole, hidx]⟩
      · exact ⟨writeMsg2 P call payload outLen, keepsTurn_writeMsg2 call payload outLen, by simp [writeTurn, hrole, hidx]⟩
  | false =>
      rw [hrole, if_neg Bool.false_ne_true] at hturn
      exact ⟨writeMsg1 P call payload outLen, keepsTurn_writeMsg1 call payload outLen, by simp [writeTurn, hrole, hturn]⟩

theorem readTurn_inTurn
    (call : HsCall) (msg : Bytes) (outCap : Nat) {hs : NoiseHandshake}
    (hturn : if hs.initiator then hs.msgIndex = 1 else hs.msgIndex = 0 ∨ hs.msgIndex = 2) :
    ∃ x, KeepsTurn x ∧ readTurn P call msg outCap hs = hsTurn x hs := by
  cases hrole : hs.initiator with
  | true =>
      rw [hrole, if_pos rfl] at hturn
      exact ⟨hsWipeE (readMsg1 P call msg outCap), keepsTurn_wipeE (keepsTurn_readMsg1 call msg outCap),
        by simp [readTurn, hrole, hturn]⟩
  | false =>
      rw [hrole, if_neg Bool.false_ne_true] at hturn
      obtain hidx | hidx := hturn
      · exact ⟨readMsg0 P msg outCap, keepsTurn_readMsg0 msg outCap, by simp [readTurn, hrole, hidx]⟩
      · exact ⟨hsWipeE (readMsg2 P call msg outCap), keepsTurn_wipeE (keepsTurn_readMsg2 call msg outCap),
          by simp [readTurn, hrole, hidx]⟩

theorem liveCall_write
    (call : HsCall) (payload : Buf) (out : Option Nat)
    {hs : NoiseHandshake} (hopen : ¬ hs.Closed) :
    LiveCall P hs (.write call payload out) := by
  cases out with
  | none =>
      refine ⟨fun _ => hsM_map_error rfl, fun hgood _ => ?_, fun hgood _ => ?_⟩
      · exact absurd (Or.inl rfl) hgood
      · exact absurd (Or.inl rfl) hgood
  | some outLen =>
      have hwrite := handshakeWrite_open (P := P) call payload outLen hopen
      refine ⟨fun hbad => ?_, fun hgood hturn => ?_, fun hgood hturn => ?_⟩
      · obtain hnone | hlong := hbad
        · cases hnone
        · exact hsM_map_error (hwrite.trans (if_pos hlong))
      · have hshort := fun hlong => hgood (Or.inr hlong)
        rw [if_neg hshort] at hwrite
        exact hsM_map_error (hwrite.trans (writeTurn_outOfTurn call _ outLen hturn))
      · have hshort := fun hlong => hgood (Or.inr hlong)
        rw [if_neg hshort] at hwrite
        obtain ⟨x, hx, hrun⟩ := writeTurn_inTurn (P := P) call
          (if payload.isNull then .null 0 else payload) outLen hturn
        obtain ⟨msg, hs', h, h'⟩ | hfail :=
          map_hsTurn_open hx HsReply.message _ (hwrite.trans hrun) hopen
        · exact Or.inl ⟨_, hs', h, rfl, h', fun hs => absurd hs Bool.false_ne_true⟩
        · exact Or.inr hfail

theorem liveCall_read
    (call : HsCall) (msg : Buf) (out : Option Nat)
    {hs : NoiseHandshake} (hopen : ¬ hs.Closed) :
    LiveCall P hs (.read call msg out) := by
  obtain ⟨hfailed, hsplit⟩ := not_closed_iff.mp hopen
  cases msg with
  | null n =>
      refine ⟨fun _ => hsM_map_error rfl, fun hgood _ => ?_, fun hgood _ => ?_⟩
      · exact absurd (Or.inl rfl) hgood
      · exact absurd (Or.inl rfl) hgood
  | data m =>
      cases out with
      | none =>
          refine ⟨fun _ => hsM_map_error rfl, fun hgood _ => ?_, fun hgood _ => ?_⟩
          · exact absurd (Or.inr rfl) hgood
          · exact absurd (Or.inr rfl) hgood
      | some outCap =>
          have hread : handshakeRead P call (.data m) (some outCap) hs =
              readTurn P call m outCap hs := by
            simp [handshakeRead, hfailed, hsplit]
          refine ⟨fun hbad => ?_, fun _ hturn => ?_, fun _ hturn => ?_⟩
          · obtain hnull | hnone := hbad
            · cases hnull
            · cases hnone
          · exact hsM_map_error (hread.trans (readTurn_outOfTurn call m outCap hturn))
          · obtain ⟨x, hx, hrun⟩ := readTurn_inTurn (P := P) call m outCap hturn
            obtain ⟨pl, hs', h, h'⟩ | hfail :=
              map_hsTurn_open hx HsReply.payload _ (hread.trans hrun) hopen
            · exact Or.inl ⟨_, hs', h, rfl, h', fun hs => absurd hs Bool.false_ne_true⟩
            · exact Or.inr hfail

/-- On a complete open object `handshake_split` ends the handshake either way. -/
theorem handshakeSplit_cases
    (alloc : HkdfAlloc) {hs : NoiseHandshake} (hopen : ¬ hs.Closed) (hdone : hs.msgIndex = 3) :
    (∃ session hs', handshakeSplit P alloc hs = .ok session hs' ∧
      hs'.turn = (hs.initiator, hs.msgIndex, true, false) ∧ hs'.Wiped) ∨
    (∃ err hs', handshakeSplit P alloc hs = .error err (hsFail hs') ∧
      hs'.turn = (hs.initiator, hs.msgIndex, false, false)) := by
  obtain ⟨hfailed, hsplit⟩ := not_closed_iff.mp hopen
  simp only [handshakeSplit, hfailed, hsplit, handshakeIsComplete, hdone, symmetricSplit,
    Bool.or_self, Bool.false_eq_true, if_false, ge_iff_le, le_refl, decide_true, Bool.not_true]
  cases hkdfBlake2b P alloc hs.ss.ck [] with
  | error err =>
      exact Or.inr ⟨err, _, rfl, rfl⟩
  | ok keys =>
      exact Or.inl ⟨_, _, rfl, rfl,
        rfl, rfl, rfl, rfl, rfl, rfl, rfl, rfl, rfl⟩

theorem liveCall_split
    (alloc : HkdfAlloc) (session : Bool)
    {hs : NoiseHandshake} (hindex : hs.msgIndex ≤ 3) (hopen : ¬ hs.Closed) :
    LiveCall P hs (.split alloc session) := by
  obtain ⟨hfailed, hsplit⟩ := not_closed_iff.mp hopen
  cases session with
  | false =>
      refine ⟨fun _ => rfl, fun hgood _ => ?_, fun hgood _ => ?_⟩
      · exact absurd rfl hgood
      · exact absurd rfl hgood
  | true =>
      refine ⟨fun hbad => ?_, fun _ hturn => ?_, fun _ hturn => ?_⟩
      · cases hbad
      · have hearly : ¬ hs.msgIndex ≥ 3 := fun h => hturn (le_antisymm hindex h)
        exact hsM_map_error (by
          simp only [handshakeSplit, hfailed, hsplit, handshakeIsComplete, hearly]
          rfl)
      · obtain ⟨s, hs', h, h', hwiped⟩ | ⟨err, hs', h, h'⟩ :=
          handshakeSplit_cases (P := P) alloc hopen hturn
        · exact Or.inl ⟨_, hs', hsM_map_ok h, rfl, h', fun _ => hwiped⟩
        · exact Or.inr ⟨err, _, hsM_map_error h, hsFail_turn h', hsFail_wiped hs'⟩

theorem liveCall_all
    {hs : NoiseHandshake} (hindex : hs.msgIndex ≤ 3) (hopen : ¬ hs.Closed) (req : HsRequest) :
    LiveCall P hs req := by
  cases req with
  | write call payload out => exact liveCall_write call payload out hopen
  | read call msg out => exact liveCall_read call msg out hopen
  | split alloc session => exact liveCall_split alloc session hindex hopen

theorem closed_flags
    {hs : NoiseHandshake} (hclosed : hs.Closed) :
    (hs.splitDone || hs.failed) = true := by
  obtain h | h := hclosed <;> simp [h]

/-- A closed object refuses every call. -/
theorem hsApply_closed
    {hs : NoiseHandshake} (hclosed : hs.Closed) (req : HsRequest) :
    ∃ err, hsApply P req hs = .error err hs := by
  have hflags := closed_flags hclosed
  cases req with
  | write call payload out =>
      cases out with
      | none => exact ⟨.proto, hsM_map_error rfl⟩
      | some outLen => exact ⟨.state, hsM_map_error (by simp [handshakeWrite, hflags])⟩
  | read call msg out =>
      cases msg with
      | null n => exact ⟨.proto, hsM_map_error rfl⟩
      | data m =>
          cases out with
          | none => exact ⟨.proto, hsM_map_error rfl⟩
          | some outCap => exact ⟨.state, hsM_map_error (by simp [handshakeRead, hflags])⟩
  | split alloc session =>
      cases session with
      | false => exact ⟨.proto, rfl⟩
      | true => exact ⟨.state, hsM_map_error (by simp [handshakeSplit, hflags])⟩

/-- So do all later calls. -/
theorem hsRun_closed
    {hs : NoiseHandshake} (hclosed : hs.Closed) (later : List HsRequest) :
    hsRun P hs later = hs ∧ ∀ reply ∈ hsReplies P hs later, ∃ err, reply = .error err := by
  induction later with
  | nil =>
      exact ⟨rfl, fun reply hmem => absurd hmem (List.not_mem_nil)⟩
  | cons req later ih =>
      obtain ⟨err, happly⟩ := hsApply_closed (P := P) hclosed req
      simp only [hsRun, hsReplies, happly, hsAfter, hsReturn]
      refine ⟨ih.1, fun reply hmem => ?_⟩
      obtain rfl | hmem := List.mem_cons.mp hmem
      · exact ⟨err, rfl⟩
      · exact ih.2 reply hmem

/-- What the calls preserve. -/
structure ObjectInvariant (hs : NoiseHandshake) : Prop where
  index : hs.msgIndex ≤ 3
  wiped : hs.Closed → hs.Wiped

theorem handshakeInit_open
    {initiator : Bool} {sPriv sPub : Option Key} {hs : NoiseHandshake}
    (h : handshakeInit P initiator sPriv sPub = .ok hs) :
    hs.turn = (initiator, 0, false, false) := by
  cases sPriv with
  | none => cases h
  | some priv =>
      cases sPub with
      | none => cases h
      | some pub =>
          cases h
          rfl

/-- An object that has just been made is open. -/
theorem handshakeInit_invariant
    {initiator : Bool} {sPriv sPub : Option Key} {hs : NoiseHandshake}
    (h : handshakeInit P initiator sPriv sPub = .ok hs) :
    ObjectInvariant hs ∧ ¬ hs.Closed := by
  have hturn := handshakeInit_open h
  simp only [NoiseHandshake.turn, Prod.mk.injEq] at hturn
  obtain ⟨-, hindex, hsplit, hfailed⟩ := hturn
  have hopen : ¬ hs.Closed := not_closed_iff.mpr ⟨hfailed, hsplit⟩
  exact ⟨⟨by omega, fun hclosed => absurd hclosed hopen⟩, hopen⟩

/-- A call in turn keeps the index within bounds. -/
theorem nextIndex_le
    {hs : NoiseHandshake} {req : HsRequest}
    (hturn : req.InTurn hs) :
    req.nextIndex hs ≤ 3 := by
  cases req with
  | write call payload out =>
      simp only [HsRequest.InTurn, HsRequest.nextIndex] at hturn ⊢
      split at hturn <;> omega
  | read call msg out =>
      simp only [HsRequest.InTurn, HsRequest.nextIndex] at hturn ⊢
      split at hturn <;> omega
  | split alloc session =>
      exact le_of_eq hturn

/-- The ways a call can go, on any object. -/
theorem hsApply_cases
    {hs : NoiseHandshake} (hinv : ObjectInvariant hs) (req : HsRequest) :
    (∃ err, hsApply P req hs = .error err hs) ∨
    (¬ hs.Closed ∧ req.InTurn hs ∧ ∃ reply hs', hsApply P req hs = .ok reply hs' ∧
      reply.isSession = req.isSplit ∧
      hs'.turn = (hs.initiator, req.nextIndex hs, req.isSplit, false) ∧
      (req.isSplit = true → hs'.Wiped)) ∨
    (¬ hs.Closed ∧ req.InTurn hs ∧ ∃ err hs', hsApply P req hs = .error err hs' ∧
      hs'.turn = (hs.initiator, hs.msgIndex, false, true) ∧ hs'.Wiped) := by
  by_cases hclosed : hs.Closed
  · exact Or.inl (hsApply_closed hclosed req)
  · have hcall := liveCall_all (P := P) hinv.index hclosed req
    by_cases hbad : req.BadArguments
    · exact Or.inl ⟨.proto, hcall.badArguments hbad⟩
    · by_cases hturn : req.InTurn hs
      · obtain hok | herr := hcall.inTurn hbad hturn
        · exact Or.inr (Or.inl ⟨hclosed, hturn, hok⟩)
        · exact Or.inr (Or.inr ⟨hclosed, hturn, herr⟩)
      · exact Or.inl ⟨.state, hcall.outOfTurn hbad hturn⟩

/-- One call preserves the invariant. -/
theorem hsApply_invariant
    {hs : NoiseHandshake} (hinv : ObjectInvariant hs) (req : HsRequest) :
    ObjectInvariant (hsAfter (hsApply P req hs)) := by
  obtain ⟨err, h⟩ | ⟨-, hin, reply, hs', h, -, hturn, hwiped⟩ | ⟨-, -, err, hs', h, hturn, hwiped⟩ :=
    hsApply_cases (P := P) hinv req
  · rw [h]
    exact hinv
  · rw [h]
    simp only [NoiseHandshake.turn, Prod.mk.injEq] at hturn
    obtain ⟨-, hindex, hsplit, hfailed⟩ := hturn
    refine ⟨hindex.trans_le (nextIndex_le hin), fun hclosed => ?_⟩
    obtain hf | hs := hclosed
    · exact absurd (hfailed.symm.trans hf) Bool.false_ne_true
    · exact hwiped (hsplit.symm.trans hs)
  · rw [h]
    simp only [NoiseHandshake.turn, Prod.mk.injEq] at hturn
    exact ⟨hturn.2.1.trans_le hinv.index, fun _ => hwiped⟩

/-- Any sequence of calls preserves the invariant. -/
theorem hsRun_invariant
    {hs : NoiseHandshake} (hinv : ObjectInvariant hs) (reqs : List HsRequest) :
    ObjectInvariant (hsRun P hs reqs) := by
  induction reqs generalizing hs with
  | nil =>
      exact hinv
  | cons req reqs ih =>
      exact ih (hsApply_invariant hinv req)

theorem hsSessions_cons
    (hs : NoiseHandshake) (req : HsRequest) (reqs : List HsRequest) :
    hsSessions P hs (req :: reqs) =
      hsSessions P (hsAfter (hsApply P req hs)) reqs +
        (match hsReturn (hsApply P req hs) with
          | .ok reply => if reply.isSession then 1 else 0
          | .error _ => 0) := by
  simp only [hsSessions, hsReplies, List.countP_cons]
  congr 1
  cases hsReturn (hsApply P req hs) <;> simp

/-- A closed object hands out no session. -/
theorem hsSessions_closed
    {hs : NoiseHandshake} (hclosed : hs.Closed) (reqs : List HsRequest) :
    hsSessions P hs reqs = 0 := by
  unfold hsSessions
  rw [List.countP_eq_zero]
  intro reply hmem
  obtain ⟨err, rfl⟩ := (hsRun_closed hclosed reqs).2 reply hmem
  exact Bool.false_ne_true

/-- A handshake hands out at most one session. -/
theorem hsSessions_le_one
    {hs : NoiseHandshake} (hinv : ObjectInvariant hs) (reqs : List HsRequest) :
    hsSessions P hs reqs ≤ 1 := by
  induction reqs generalizing hs with
  | nil =>
      exact Nat.zero_le 1
  | cons req reqs ih =>
      have hrest := ih (hsApply_invariant (P := P) hinv req)
      rw [hsSessions_cons]
      obtain ⟨err, h⟩ | ⟨-, -, reply, hs', h, hsession, hturn, -⟩ | ⟨-, -, err, hs', h, -⟩ :=
        hsApply_cases (P := P) hinv req
      · rw [h] at hrest ⊢
        exact hrest
      · rw [h] at hrest ⊢
        simp only [hsAfter, hsReturn, hsession] at hrest ⊢
        cases hreq : req.isSplit with
        | false =>
            exact hrest
        | true =>
            -- the split closes the object, so the later calls add nothing
            simp only [NoiseHandshake.turn, hreq, Prod.mk.injEq] at hturn
            rw [hsSessions_closed (Or.inr hturn.2.2.1) reqs]
            exact le_refl 1
      · rw [h] at hrest ⊢
        exact hrest

/-- The invariant gives the behaviour of every further call. -/
theorem objectState_of_invariant
    {hs : NoiseHandshake} (hinv : ObjectInvariant hs) :
    ObjectState P hs := by
  refine ⟨hinv.index, ?_, ?_, ?_, ?_, ?_⟩
  · intro req reply hs' hok
    obtain ⟨err, h⟩ | ⟨-, hin, reply1, hs1, h, -, hturn, -⟩ | ⟨-, -, err, hs1, h, -⟩ :=
      hsApply_cases (P := P) hinv req
    · rw [h] at hok
      cases hok
    · rw [h] at hok
      cases hok
      simp only [NoiseHandshake.turn, Prod.mk.injEq] at hturn
      exact ⟨hin, hturn.2.1⟩
    · rw [h] at hok
      cases hok
  · intro req err hs' herr
    obtain ⟨err1, h⟩ | ⟨-, -, reply1, hs1, h, -⟩ | ⟨-, -, err1, hs1, h, hturn, -⟩ :=
      hsApply_cases (P := P) hinv req
    · rw [h] at herr
      cases herr
      rfl
    · rw [h] at herr
      cases herr
    · rw [h] at herr
      cases herr
      simp only [NoiseHandshake.turn, Prod.mk.injEq] at hturn
      exact hturn.2.1
  · intro req reply hs' hok hsession
    obtain ⟨err, h⟩ | ⟨hopen, hin, reply1, hs1, h, hreply, -⟩ | ⟨-, -, err, hs1, h, -⟩ :=
      hsApply_cases (P := P) hinv req
    · rw [h] at hok
      cases hok
    · rw [h] at hok
      cases hok
      rw [hsession] at hreply
      cases req with
      | split alloc session => exact ⟨hin, not_closed_iff.mp hopen⟩
      | write call payload out => cases hreply
      | read call msg out => cases hreply
    · rw [h] at hok
      cases hok
  · exact fun hopen req => liveCall_all hinv.index hopen req
  · exact fun hclosed => ⟨hinv.wiped hclosed, hsRun_closed hclosed⟩

/-- No call changes the role. -/
theorem hsRun_initiator
    {hs : NoiseHandshake} (hinv : ObjectInvariant hs) (reqs : List HsRequest) :
    (hsRun P hs reqs).initiator = hs.initiator := by
  induction reqs generalizing hs with
  | nil =>
      rfl
  | cons req reqs ih =>
      have hstep : (hsAfter (hsApply P req hs)).initiator = hs.initiator := by
        obtain ⟨err, h⟩ | ⟨-, -, reply, hs', h, -, hturn, -⟩ | ⟨-, -, err, hs', h, hturn, -⟩ :=
          hsApply_cases (P := P) hinv req
        · rw [h]
          rfl
        · rw [h]
          exact congrArg Prod.fst hturn
        · rw [h]
          exact congrArg Prod.fst hturn
      exact (ih (hsApply_invariant hinv req)).trans hstep

/--
Every sequence of calls on an object made by `handshake_init`: where it stops, the object
keeps its role and behaves as `ObjectState` says, and it has handed out at most one session.
-/
theorem handshake_object_runs
    {initiator : Bool} {sPriv sPub : Option Key} {hs : NoiseHandshake}
    (hinit : handshakeInit P initiator sPriv sPub = .ok hs) (reqs : List HsRequest) :
    (hsRun P hs reqs).initiator = initiator ∧
      ObjectState P (hsRun P hs reqs) ∧
      hsSessions P hs reqs ≤ 1 := by
  obtain ⟨hinv, -⟩ := handshakeInit_invariant hinit
  have hrole : hs.initiator = initiator := congrArg Prod.fst (handshakeInit_open hinit)
  exact ⟨(hsRun_initiator hinv reqs).trans hrole,
    objectState_of_invariant (hsRun_invariant hinv reqs), hsSessions_le_one hinv reqs⟩

/-- An early split, a message into a buffer that is too small, and a second try. -/
def sampleRequests : List HsRequest :=
  [.split sampleAlloc true,
    .write { eph := ⟨Block.zero 32, Block.zero 32⟩, alloc1 := sampleAlloc, alloc2 := sampleAlloc }
      (.data []) (some 16),
    .write { eph := ⟨Block.zero 32, Block.zero 32⟩, alloc1 := sampleAlloc, alloc2 := sampleAlloc }
      (.data []) (some 256)]

theorem handshake_object_runs_failed :
    (hsRun samplePrimitives
        (handshakeInitNamed samplePrimitives noiseProtocolName true (Block.zero 32) (Block.zero 32))
        sampleRequests).initiator = true ∧
      ObjectState samplePrimitives (hsRun samplePrimitives
        (handshakeInitNamed samplePrimitives noiseProtocolName true (Block.zero 32) (Block.zero 32))
        sampleRequests) ∧
      hsSessions samplePrimitives
        (handshakeInitNamed samplePrimitives noiseProtocolName true (Block.zero 32) (Block.zero 32))
        sampleRequests ≤ 1 :=
  handshake_object_runs
    (show handshakeInit samplePrimitives true (some (Block.zero 32)) (some (Block.zero 32)) = .ok _
      from rfl) sampleRequests

end HandshakeObject

end Noise
end Noxtor
