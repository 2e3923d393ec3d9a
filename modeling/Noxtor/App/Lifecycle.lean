import Noxtor.App.StateMachine
import Mathlib.Logic.Relation

/-!
# The life of a slot

An abstract slot keeps what the life of a connection is about: the state, the descriptor,
how far the handshake has come and with which key, the key of the session, and whether
files are on the way.  With it goes what the TOFU prompts share, and the marks: the part
of the log that a reader of the screen or of the slot's history can point at.

`Move` lists everything that can happen to a slot without an answer of the user.  The
moves keep `SlotLife.Ok`, the coherence of a slot; that the functions of the program only
make such moves is proved in the modules that follow.
-/

namespace Noxtor
namespace App

open ByteString Noise

/-- The effects that belong to the history of a connection and its prompts. -/
def Effect.isMark : Effect → Bool
  | .showFp _ _ => true
  | .tofuPrompt _ _ _ => true
  | .arm _ _ _ => true
  | .tofuSession _ _ => true
  | .teardown _ => true
  | .dialled _ _ => false
  | .heard _ _ => false
  | .sent _ _ => false
  | .incoming _ _ => false
  | .fileRecord _ _ => false
  | .claim _ _ _ => false
  | .knownSession _ _ _ => false
  | .keyChanged _ _ => false
  | .fileDone _ _ => false
  | .newPeer _ _ => false
  | .dbGetContact _ _ => false
  | .dbAddContact _ _ _ => false
  | .dbListContacts _ => false
  | .dbProcessQueue _ _ => false
  | .queueSend _ _ _ _ => false
  | .dbQueueMessage _ _ => false
  | .dbQueueRollback _ _ => false
  | .fileCreate _ _ => false
  | .fileWrite _ _ _ => false
  | .fileUnlink _ _ => false

/-- The marks of a log. -/
def marks (log : List Effect) : List Effect :=
  log.filter Effect.isMark

@[simp] theorem marks_append
    (l l' : List Effect) :
    marks (l ++ l') = marks l ++ marks l' := by
  exact List.filter_append l l'

theorem marks_eq_nil
    {l : List Effect} (h : ∀ e ∈ l, e.isMark = false) :
    marks l = [] := by
  apply List.filter_eq_nil_iff.mpr
  intro e he
  rw [h e he]
  exact Bool.false_ne_true

/-- A slot, as far as its life is concerned.  `hs` is the message counter and the remote
key of the handshake, `session` the remote key of the session. -/
structure SlotLife where
  state : PeerState
  fd : Int
  hs : Option (Nat × Key)
  session : Option Key
  rxActive : Bool
  txActive : Bool
  blank : Bool
  epoch : Nat
  key : Key
deriving DecidableEq

/-- One abstract slot and what is shared. -/
structure Life where
  slot : SlotLife
  epoch : Nat
  promptEpoch : Nat
  promptFp : Key
  marks : List Effect
  fault : Bool
deriving DecidableEq

/-- Nothing of an earlier connection is left in the slot. -/
def isBlank (ps : PeerSession) : Bool :=
  ps.recv = [] && ps.peerOnion = [] && ps.connectTarget = [] &&
    !ps.tofuPending && !ps.peerVerified

/-- The abstraction of a slot. -/
def slotLife (ps : PeerSession) : SlotLife :=
  { state := ps.state
    fd := ps.fd
    hs := ps.hs.map fun hs => (hs.msgIndex, hs.rs)
    session := ps.session.map NoiseSession.remoteStatic
    rxActive := ps.rxFile.active
    txActive := ps.txFile.active
    blank := decide (ps.state ≠ .idle) || isBlank ps
    epoch := ps.tofuEpoch
    key := ps.tofuNewKey }

/-- The abstraction of a view. -/
def life (v : View) : Life :=
  { slot := slotLife v.ps
    epoch := v.sh.tofuEpoch
    promptEpoch := v.sh.tofuPromptEpoch
    promptFp := v.sh.tofuPromptFp
    marks := marks v.sh.log
    fault := v.sh.fault }

/-- The coherence of a slot, state by state. -/
def SlotLife.Ok (a : SlotLife) : Prop :=
  match a.state with
  | .idle =>
      a.fd = -1 ∧ a.hs = none ∧ a.session = none ∧ a.rxActive = false ∧
        a.txActive = false ∧ a.blank = true
  | .handshakeInit | .handshakeResp =>
      0 ≤ a.fd ∧ (∃ idx k, a.hs = some (idx, k) ∧ idx < 3) ∧ a.session = none ∧
        a.rxActive = false ∧ a.txActive = false
  | .tofuPending =>
      0 ≤ a.fd ∧ a.hs = some (3, a.key) ∧ a.session = none ∧
        a.rxActive = false ∧ a.txActive = false
  | .active => 0 ≤ a.fd ∧ a.hs = none ∧ a.session.isSome = true ∧ a.rxActive = false
  | .fileRx => 0 ≤ a.fd ∧ a.hs = none ∧ a.session.isSome = true ∧ a.rxActive = true
  | .connecting | .fileTx => False

/-- A coherent slot, and no NULL pointer followed so far. -/
def Life.Ok (a : Life) : Prop :=
  a.slot.Ok ∧ a.fault = false

/-- The handshake states. -/
def PeerState.Handshaking (st : PeerState) : Prop :=
  st = .handshakeInit ∨ st = .handshakeResp

/-- An abstract slot that has been cleaned up. -/
def SlotLife.torn (a : SlotLife) : SlotLife :=
  { a with
    state := .idle
    fd := if a.fd ≥ 0 then -1 else a.fd
    hs := none
    session := none
    rxActive := false
    txActive := false
    blank := true
    key := Block.zero 32 }

/-- The effects of a prompt. -/
def promptMarks (i : Slot) (a : Life) (k : Key) : List Effect :=
  [.showFp i (hex k.toList), .tofuPrompt i (a.epoch + 1) k] ++
    (if a.promptEpoch = 0 then [.arm .prompt (a.epoch + 1) k] else [])

/-- A prompt for slot `i` with key `k`. -/
def Life.prompted (i : Slot) (a : Life) (k : Key) : Life :=
  { slot := { a.slot with
      state := .tofuPending, hs := some (3, k), epoch := a.epoch + 1, key := k }
    epoch := a.epoch + 1
    promptEpoch := if a.promptEpoch = 0 then a.epoch + 1 else a.promptEpoch
    promptFp := if a.promptEpoch = 0 then k else a.promptFp
    marks := a.marks ++ promptMarks i a k
    fault := a.fault }

/-- Slot `i` has been torn down. -/
def Life.tornDown (i : Slot) (a : Life) : Life :=
  { a with slot := a.slot.torn, marks := a.marks ++ [.teardown i] }

/-- What can happen to slot `i` without an answer of the user. -/
inductive Move (i : Slot) : Life → Life → Prop
  | connect {a : Life} (st : PeerState) (fd : Nat) (idx : Nat) (k : Key)
      (hidle : a.slot.state = .idle) (hst : st.Handshaking) (hidx : idx < 3) :
      Move i a { a with slot := { a.slot with
        state := st, fd := fd, hs := some (idx, k), blank := true } }
  | turn {a : Life} (idx : Nat) (k : Key)
      (hst : a.slot.state.Handshaking) (hidx : idx < 3) :
      Move i a { a with slot := { a.slot with hs := some (idx, k) } }
  | up {a : Life} (k : Key) (hst : a.slot.state.Handshaking) :
      Move i a { a with slot := { a.slot with
        state := .active, hs := none, session := some k } }
  | prompt {a : Life} (k : Key) (hst : a.slot.state.Handshaking) :
      Move i a (a.prompted i k)
  | rxStart {a : Life} (hst : a.slot.state = .active) :
      Move i a { a with slot := { a.slot with state := .fileRx, rxActive := true } }
  | rxDone {a : Life} (hst : a.slot.state = .fileRx) :
      Move i a { a with slot := { a.slot with state := .active, rxActive := false } }
  | tx {a : Life} (b : Bool) (hst : a.slot.state = .active ∨ a.slot.state = .fileRx) :
      Move i a { a with slot := { a.slot with txActive := b } }
  | torn {a : Life} (hst : a.slot.state ≠ .idle) :
      Move i a (a.tornDown i)

/-- Any number of moves. -/
def Moves (i : Slot) : Life → Life → Prop :=
  Relation.ReflTransGen (Move i)

namespace Moves

variable {i : Slot} {a b c : Life}

theorem refl (a : Life) : Moves i a a :=
  Relation.ReflTransGen.refl

theorem one (h : Move i a b) : Moves i a b :=
  Relation.ReflTransGen.single h

theorem trans (h : Moves i a b) (h' : Moves i b c) : Moves i a c :=
  Relation.ReflTransGen.trans h h'

theorem of_eq (h : b = a) : Moves i a b := by
  rw [h]
  exact refl a

end Moves

section Preservation

variable {i : Slot} {a b : Life}

theorem SlotLife.Ok.fd_nonneg
    {s : SlotLife} (h : s.Ok) (hst : s.state ≠ .idle) :
    0 ≤ s.fd := by
  unfold SlotLife.Ok at h
  cases hs : s.state <;> simp only [hs] at h hst
  · exact absurd rfl hst
  · exact h.1
  · exact h.1
  · exact h.1
  · exact h.1
  · exact h.1

/-- A slot that has been torn down is coherent. -/
theorem SlotLife.torn_ok
    {s : SlotLife} (h : s.Ok) (hst : s.state ≠ .idle) :
    s.torn.Ok := by
  have hfd := h.fd_nonneg hst
  simp [SlotLife.Ok, SlotLife.torn, hfd]

/-- What a coherent slot in a handshake state holds. -/
theorem SlotLife.Ok.handshaking
    {s : SlotLife} (h : s.Ok) (hst : s.state.Handshaking) :
    0 ≤ s.fd ∧ (∃ idx k, s.hs = some (idx, k) ∧ idx < 3) ∧ s.session = none ∧
      s.rxActive = false ∧ s.txActive = false := by
  unfold SlotLife.Ok at h
  rcases hst with hst | hst <;> simpa only [hst] using h

/-- Coherence of a slot in a handshake state, read backwards. -/
theorem SlotLife.ok_of_handshaking
    {s : SlotLife} (hst : s.state.Handshaking)
    (h : 0 ≤ s.fd ∧ (∃ idx k, s.hs = some (idx, k) ∧ idx < 3) ∧ s.session = none ∧
      s.rxActive = false ∧ s.txActive = false) :
    s.Ok := by
  unfold SlotLife.Ok
  rcases hst with hst | hst <;> simpa only [hst] using h

/-- A slot with a session is in one of the two session states. -/
theorem SlotLife.Ok.of_session
    {s : SlotLife} (h : s.Ok) (hs : s.session ≠ none) :
    s.state = .active ∨ s.state = .fileRx := by
  unfold SlotLife.Ok at h
  cases hst : s.state <;> simp only [hst] at h
  · exact absurd h.2.2.1 hs
  · exact absurd h.2.2.1 hs
  · exact absurd h.2.2.1 hs
  · exact absurd h.2.2.1 hs
  · exact Or.inl rfl
  · exact Or.inr rfl

/-- Every move keeps the slot coherent. -/
theorem Move.slot_ok
    (h : Move i a b) (hok : a.slot.Ok) :
    b.slot.Ok := by
  cases h with
  | connect st fd idx k hidle hst hidx =>
      have hok' := hok
      simp only [SlotLife.Ok, hidle] at hok'
      obtain ⟨-, -, hses, hrx, htx, -⟩ := hok'
      apply SlotLife.ok_of_handshaking
      · exact hst
      · exact ⟨Int.natCast_nonneg fd, ⟨idx, k, rfl, hidx⟩, hses, hrx, htx⟩
  | turn idx k hst hidx =>
      obtain ⟨hfd, -, hses, hrx, htx⟩ := hok.handshaking hst
      apply SlotLife.ok_of_handshaking
      · exact hst
      · exact ⟨hfd, ⟨idx, k, rfl, hidx⟩, hses, hrx, htx⟩
  | up k hst =>
      obtain ⟨hfd, -, -, hrx, -⟩ := hok.handshaking hst
      exact ⟨hfd, rfl, rfl, hrx⟩
  | prompt k hst =>
      obtain ⟨hfd, -, hses, hrx, htx⟩ := hok.handshaking hst
      exact ⟨hfd, rfl, hses, hrx, htx⟩
  | rxStart hst =>
      simp only [SlotLife.Ok, hst] at hok
      exact ⟨hok.1, hok.2.1, hok.2.2.1, rfl⟩
  | rxDone hst =>
      simp only [SlotLife.Ok, hst] at hok
      exact ⟨hok.1, hok.2.1, hok.2.2.1, rfl⟩
  | tx t hst =>
      unfold SlotLife.Ok at hok ⊢
      rcases hst with hst | hst <;> simpa only [hst] using hok
  | torn hst =>
      exact SlotLife.torn_ok hok hst

theorem Move.fault_eq
    (h : Move i a b) :
    b.fault = a.fault := by
  cases h <;> rfl

/-- Any number of moves keep the slot coherent. -/
theorem Moves.ok
    (h : Moves i a b) (hok : a.Ok) :
    b.Ok := by
  induction h with
  | refl =>
      exact hok
  | tail _ hstep ih =>
      exact ⟨hstep.slot_ok ih.1, by rw [hstep.fault_eq, ih.2]⟩

end Preservation

section Views

variable {i : Slot} {v : View}

@[simp] theorem life_tickOn (v : View) : life v.tickOn = life v := rfl

@[simp] theorem life_say (k : UiKind) (t : String) (l : List Bytes) (v : View) :
    life (v.say k t l) = life v := rfl

@[simp] theorem life_uiPrintError (t : String) (l : List Bytes) (v : View) :
    life (v.uiPrintError t l) = life v := rfl

@[simp] theorem life_uiPrintSystem (t : String) (l : List Bytes) (v : View) :
    life (v.uiPrintSystem t l) = life v := rfl

@[simp] theorem life_touchLastActive (E : Env) (v : View) :
    life (touchLastActive E v) = life v := rfl

@[simp] theorem life_sodiumMalloc (E : Env) (v : View) :
    life (sodiumMalloc E v).2 = life v := rfl

theorem life_emit
    {es : List Effect} (h : ∀ e ∈ es, e.isMark = false) (v : View) :
    life (v.emit es) = life v := by
  simp [life, View.emit, View.setSh, marks_eq_nil h]

/-- A change of the slot that its life does not show. -/
theorem life_setPs
    {f : PeerSession → PeerSession} (h : slotLife (f v.ps) = slotLife v.ps) :
    life (v.setPs f) = life v := by
  simp [life, h]

/-- The life of a slot in use does not show what has been received. -/
theorem slotLife_recv
    {ps : PeerSession} (h : ps.state ≠ .idle) (b : Bytes) :
    slotLife { ps with recv := b } = slotLife ps := by
  simp [slotLife, h]

theorem sockWrite_ps
    (E : Env) (i : Slot) (data : Bytes) (v : View) :
    (sockWrite E i data v).2.ps = v.ps := by
  unfold sockWrite
  cases E.write v.sh.tick <;> rfl

theorem life_sockWrite
    (E : Env) (i : Slot) (data : Bytes) (v : View) :
    life (sockWrite E i data v).2 = life v := by
  unfold sockWrite
  cases E.write v.sh.tick with
  | ok n =>
      exact life_emit (by simp [Effect.isMark]) v.tickOn
  | eagain =>
      rfl
  | eintr =>
      rfl
  | err =>
      rfl

/-- The clean-up of the code is the clean-up of the abstract slot. -/
theorem life_tornDown
    (i : Slot) (v : View) :
    life (tornDown i v) = (life v).tornDown i := by
  have hun : marks (unlinkPartial i v) = [] := by
    apply marks_eq_nil
    unfold unlinkPartial
    split <;> simp [Effect.isMark]
  have hmark : marks [Effect.teardown i] = [.teardown i] := rfl
  have hrx : (if v.ps.rxFile.active = true then ({ fd := -1 } : FileRx)
      else v.ps.rxFile).active = false := by
    split
    · rfl
    · rename_i h
      exact Bool.eq_false_iff.mpr h
  have htx : (if v.ps.txFile.active = true then ({ fd := -1 } : FileTx)
      else v.ps.txFile).active = false := by
    split
    · rfl
    · rename_i h
      exact Bool.eq_false_iff.mpr h
  simp [life, tornDown, actionCleanup, Life.tornDown, SlotLife.torn, slotLife, cleanedSlot,
    hun, hmark, hrx, htx, isBlank]

end Views

section Dispatch

variable {P : Primitives} {E : Env} {i : Slot}

/-- A disconnect of a slot is nothing, or a teardown. -/
theorem peerDisconnected_moves
    (v : View) :
    Moves i (life v) (life (smDispatch P E i .peerDisconnected v).2) := by
  rw [smDispatch_peerDisconnected]
  by_cases h : v.ps.state = .idle
  · rw [if_pos h]
    exact Moves.refl _
  · rw [if_neg h, life_tornDown]
    exact Moves.one (.torn h)

end Dispatch

end App
end Noxtor
