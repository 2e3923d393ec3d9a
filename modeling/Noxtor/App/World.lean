import Noxtor.App.FrameMoves
import Noxtor.App.EventLoop

/-!
# All slots together

The abstract state of the application has one abstract slot for every slot of the array
and what they share.  Every part of the event loop that is not an answer to a TOFU prompt
is a sequence of moves, each of a single slot; the answers are described separately.
-/

namespace Noxtor
namespace App

open ByteString Noise

/-- The abstract state of the application. -/
structure World where
  slots : Slot → SlotLife
  epoch : Nat
  promptEpoch : Nat
  promptFp : Key
  marks : List Effect
  fault : Bool

namespace World

/-- Slot `i` of the abstract state. -/
def view (w : World) (i : Slot) : Life :=
  { slot := w.slots i, epoch := w.epoch, promptEpoch := w.promptEpoch
    promptFp := w.promptFp, marks := w.marks, fault := w.fault }

/-- Put a slot and what is shared back. -/
def put (w : World) (i : Slot) (a : Life) : World :=
  { slots := Function.update w.slots i a.slot, epoch := a.epoch, promptEpoch := a.promptEpoch
    promptFp := a.promptFp, marks := a.marks, fault := a.fault }

/-- Every slot is coherent. -/
def Ok (w : World) : Prop :=
  ∀ i, (w.view i).Ok

@[simp] theorem view_put_same
    (w : World) (i : Slot) (a : Life) :
    (w.put i a).view i = a := by
  simp [view, put]

theorem view_put_slot
    (w : World) {i j : Slot} (a : Life) (h : j ≠ i) :
    ((w.put i a).view j).slot = (w.view j).slot := by
  simp [view, put, h]

@[simp] theorem put_view
    (w : World) (i : Slot) :
    w.put i (w.view i) = w := by
  simp [view, put]

@[simp] theorem put_put
    (w : World) (i : Slot) (a b : Life) :
    (w.put i a).put i b = w.put i b := by
  simp [put]

end World

/-- The abstraction of the application. -/
def world (s : AppState) : World :=
  { slots := fun i => slotLife (s.peers i)
    epoch := s.sh.tofuEpoch
    promptEpoch := s.sh.tofuPromptEpoch
    promptFp := s.sh.tofuPromptFp
    marks := marks s.sh.log
    fault := s.sh.fault }

@[simp] theorem world_view
    (s : AppState) (i : Slot) :
    (world s).view i = life (s.view i) := by
  rfl

theorem world_put
    (s : AppState) (i : Slot) (v : View) :
    world (s.put i v) = (world s).put i (life v) := by
  have h : (fun j => slotLife ((Function.update s.peers i v.ps) j)) =
      Function.update (fun j => slotLife (s.peers j)) i (slotLife v.ps) := by
    funext j
    by_cases hj : j = i
    · subst hj
      simp
    · simp [hj]
  simp [world, AppState.put, World.put, life, h]

theorem world_onSlot
    (s : AppState) (i : Slot) (f : View → View) :
    world (s.onSlot i f) = (world s).put i (life (f (s.view i))) :=
  world_put s i _

/-- A move of one slot. -/
def WorldMove (w w' : World) : Prop :=
  ∃ i a, Move i (w.view i) a ∧ w' = w.put i a

/-- Any number of moves of any slots. -/
def WorldMoves : World → World → Prop :=
  Relation.ReflTransGen WorldMove

namespace WorldMoves

variable {w w' w'' : World}

theorem refl (w : World) : WorldMoves w w :=
  Relation.ReflTransGen.refl

theorem trans (h : WorldMoves w w') (h' : WorldMoves w' w'') : WorldMoves w w'' :=
  Relation.ReflTransGen.trans h h'

theorem of_eq (h : w' = w) : WorldMoves w w' := by
  rw [h]
  exact refl w

/-- Moves of a slot are moves of the whole. -/
theorem of_slot
    {i : Slot} {a : Life} (h : Moves i (w.view i) a) :
    WorldMoves w (w.put i a) := by
  induction h with
  | refl =>
      exact of_eq (World.put_view w i)
  | tail _ hstep ih =>
      rename_i b c _
      apply Relation.ReflTransGen.tail ih
      refine ⟨i, c, ?_, ?_⟩
      · rw [World.view_put_same]
        exact hstep
      · rw [World.put_put]

end WorldMoves

/-- A move of one slot keeps all of them coherent. -/
theorem WorldMove.ok
    {w w' : World} (h : WorldMove w w') (hok : w.Ok) :
    w'.Ok := by
  obtain ⟨i, a, hmove, rfl⟩ := h
  have ha : a.Ok := (Moves.one hmove).ok (hok i)
  intro j
  by_cases hj : j = i
  · subst hj
    rw [World.view_put_same]
    exact ha
  · exact ⟨by rw [World.view_put_slot w a hj]; exact (hok j).1, ha.2⟩

theorem WorldMoves.ok
    {w w' : World} (h : WorldMoves w w') (hok : w.Ok) :
    w'.Ok := by
  induction h with
  | refl =>
      exact hok
  | tail _ hstep ih =>
      exact hstep.ok ih

section Shared

variable {P : Primitives} {E : Env} {s : AppState}

theorem world_uiPrintError
    (s : AppState) (t : String) (a : List Bytes) :
    world (s.uiPrintError t a) = world s := by
  rfl

theorem world_uiPrintSystem
    (s : AppState) (t : String) (a : List Bytes) :
    world (s.uiPrintSystem t a) = world s := by
  rfl

/-- A change of the shared state that the abstraction does not show. -/
def QuietShared (sh sh' : Shared) : Prop :=
  sh'.tofuEpoch = sh.tofuEpoch ∧ sh'.tofuPromptEpoch = sh.tofuPromptEpoch ∧
    sh'.tofuPromptFp = sh.tofuPromptFp ∧ marks sh'.log = marks sh.log ∧ sh'.fault = sh.fault

theorem world_shared
    {sh : Shared} (h : QuietShared s.sh sh) :
    world { s with sh := sh } = world s := by
  obtain ⟨h1, h2, h3, h4, h5⟩ := h
  simp [world, h1, h2, h3, h4, h5]

theorem life_shared
    {v : View} {sh : Shared} (h : QuietShared v.sh sh) :
    life { v with sh := sh } = life v := by
  obtain ⟨h1, h2, h3, h4, h5⟩ := h
  simp [life, h1, h2, h3, h4, h5]

theorem marks_append_quiet
    {log es : List Effect} (h : ∀ e ∈ es, e.isMark = false) :
    marks (log ++ es) = marks log := by
  rw [marks_append, marks_eq_nil h, List.append_nil]

theorem dbAddContact_quiet
    (onion name : Bytes) (key : Key) (sh : Shared) :
    QuietShared sh (dbAddContact E onion name key sh).2 := by
  unfold dbAddContact
  split
  · exact ⟨rfl, rfl, rfl, rfl, rfl⟩
  split
  · exact ⟨rfl, rfl, rfl, rfl, rfl⟩
  cases E.dbAddContact sh.tick with
  | error err =>
      exact ⟨rfl, rfl, rfl, rfl, rfl⟩
  | ok u =>
      refine ⟨rfl, rfl, rfl, ?_, rfl⟩
      exact marks_append_quiet (by simp [Effect.isMark])

theorem dbGetContact_quiet
    (onion : Bytes) (sh : Shared) :
    QuietShared sh (dbGetContact E onion sh).2 := by
  unfold dbGetContact
  split <;> exact ⟨rfl, rfl, rfl, marks_append_quiet (by simp [Effect.isMark]), rfl⟩

theorem QuietShared.trans
    {sh sh' sh'' : Shared} (h : QuietShared sh sh') (h' : QuietShared sh' sh'') :
    QuietShared sh sh'' := by
  obtain ⟨h1, h2, h3, h4, h5⟩ := h
  obtain ⟨h1', h2', h3', h4', h5'⟩ := h'
  exact ⟨h1'.trans h1, h2'.trans h2, h3'.trans h3, h4'.trans h4, h5'.trans h5⟩

theorem queueLoop_quiet
    (onion msg : Bytes) (fuel offset queued : Nat) (sh : Shared) :
    QuietShared sh (queueLoop E onion msg fuel offset queued sh).2 := by
  induction fuel generalizing offset queued sh with
  | zero =>
      exact ⟨rfl, rfl, rfl, rfl, rfl⟩
  | succ fuel ih =>
      unfold queueLoop
      split
      swap
      · exact ⟨rfl, rfl, rfl, rfl, rfl⟩
      dsimp only
      generalize (msg.drop offset).take (noxNextChunkSize msg offset msg.length) = chunk
      have hq : QuietShared sh (dbQueueMessage E onion chunk sh).2 := by
        unfold dbQueueMessage
        split
        · exact ⟨rfl, rfl, rfl, rfl, rfl⟩
        split
        · exact ⟨rfl, rfl, rfl, rfl, rfl⟩
        cases E.dbQueueMessage sh.tick with
        | error err =>
            exact ⟨rfl, rfl, rfl, rfl, rfl⟩
        | ok u =>
            refine ⟨rfl, rfl, rfl, ?_, rfl⟩
            exact marks_append_quiet (by simp [Effect.isMark])
      generalize dbQueueMessage E onion chunk sh = r at hq ⊢
      obtain ⟨_ | _, sh1⟩ := r
      · refine hq.trans ?_
        dsimp only
        split
        · unfold dbQueueRollbackLast
          split
          · exact ⟨rfl, rfl, rfl, rfl, rfl⟩
          · refine ⟨rfl, rfl, rfl, ?_, rfl⟩
            exact marks_append_quiet (by simp [Effect.isMark])
        · exact ⟨rfl, rfl, rfl, rfl, rfl⟩
      · exact hq.trans (ih _ _ sh1)

end Shared

section Slots

variable {P : Primitives} {E : Env} {s : AppState}

/-- A function that makes moves on one slot makes moves of the whole. -/
theorem onSlot_moves
    {i : Slot} {f : View → View}
    (h : Moves i (life (s.view i)) (life (f (s.view i)))) :
    WorldMoves (world s) (world (s.onSlot i f)) := by
  rw [world_onSlot]
  exact WorldMoves.of_slot (by rw [world_view]; exact h)

theorem foldSlots_moves
    {f : Slot → View → View}
    (h : ∀ i v, (life v).Ok → Moves i (life v) (life (f i v)))
    (l : List Slot) (hok : (world s).Ok) :
    WorldMoves (world s) (world (l.foldl (fun t i => t.onSlot i (f i)) s)) := by
  induction l generalizing s with
  | nil =>
      exact WorldMoves.refl _
  | cons i l ih =>
      have h1 : WorldMoves (world s) (world (s.onSlot i (f i))) :=
        onSlot_moves (h i _ (by rw [← world_view]; exact hok i))
      exact h1.trans (ih (h1.ok hok))

theorem forSlots_moves
    {f : Slot → View → View}
    (h : ∀ i v, (life v).Ok → Moves i (life v) (life (f i v))) (hok : (world s).Ok) :
    WorldMoves (world s) (world (forSlots f s)) :=
  foldSlots_moves h slots hok

end Slots

section Parts

variable {P : Primitives} {E : Env} {i : Slot} {v : View}

theorem sweepHandshake_moves
    (v : View) :
    Moves i (life v) (life (sweepHandshake P E i v)) := by
  unfold sweepHandshake
  split
  · rename_i hst
    split
    · rw [smDispatch_handshake_torn (v := v.tickOn.uiPrintError _ []) hst (Or.inr (Or.inl rfl)),
        life_tornDown, life_uiPrintError, life_tickOn]
      exact Moves.one (.torn (PeerState.Handshaking.ne_idle hst))
    · exact Moves.refl _
  · exact Moves.refl _

theorem sweepTofu_moves
    (v : View) :
    Moves i (life v) (life (sweepTofu P E i v)) := by
  unfold sweepTofu
  split
  · split
    · exact peerDisconnected_moves (v.tickOn.uiPrintError _ [])
    · exact Moves.refl _
  · exact Moves.refl _

theorem sweepChunk_moves
    (hok : (life v).Ok) :
    Moves i (life v) (life (sweepChunk P E i v)) := by
  unfold sweepChunk
  split
  swap
  · exact Moves.refl _
  rename_i hact
  split
  swap
  · exact Moves.refl _
  have hst : v.ps.state = .fileRx := by
    have hslot := hok.1
    unfold SlotLife.Ok at hslot
    cases hst : v.ps.state <;> simp [life, slotLife, hst, hact] at hslot ⊢
  dsimp only
  generalize hun : (if v.sh.downloadsDirFd ≥ 0 ∧ v.ps.rxFile.localName ≠ [] then
    [Effect.fileUnlink i v.ps.rxFile.localName] else []) = unlinked
  have hquiet : ∀ e ∈ unlinked, e.isMark = false := by
    rw [← hun]
    split <;> simp [Effect.isMark]
  generalize hv1 : ((v.tickOn.uiPrintError "Dosya transferi zaman aşımı — sender sessiz." []).emit
    unlinked) = v1
  have h1 : life v1 = life v := by
    rw [← hv1, life_emit hquiet, life_uiPrintError, life_tickOn]
  have hst1 : v1.ps.state = .fileRx := by
    rw [← hv1]
    exact hst
  rw [if_pos (show (v1.setPs fun ps => { ps with rxFile := { fd := -1 } }).ps.state = _ from hst1)]
  have h2 := life_rxFinish (P := P) (E := E) (i := i) hst1
  rw [← h1]
  exact rxDone_moves hst1 h2

theorem sweepIdle_moves
    (v : View) :
    Moves i (life v) (life (sweepIdle P E i v)) := by
  unfold sweepIdle
  split
  · dsimp only
    split
    · exact peerDisconnected_moves (v.tickOn.uiPrintError _ [])
    split
    · exact peerDisconnected_moves v.tickOn
    · exact Moves.refl _
  · exact Moves.refl _

theorem sweepSlot_moves
    (hok : (life v).Ok) :
    Moves i (life v) (life (sweepSlot P E i v)) := by
  unfold sweepSlot
  split
  · exact Moves.refl _
  have h1 := sweepHandshake_moves (P := P) (E := E) (i := i) v
  have h2 := sweepTofu_moves (P := P) (E := E) (i := i) (sweepHandshake P E i v)
  have h3 := sweepChunk_moves (P := P) (E := E) (i := i) (h2.ok (h1.ok hok))
  exact ((h1.trans h2).trans h3).trans (sweepIdle_moves _)

theorem torDiedSlot_moves
    (hok : (life v).Ok) :
    Moves i (life v) (life (torDiedSlot P E i v)) := by
  unfold torDiedSlot
  split
  swap
  · exact Moves.refl _
  rename_i huse
  have hne : v.ps.state ≠ .idle := by
    rcases huse with hfd | hst
    · intro hst
      have hslot := hok.1
      simp only [SlotLife.Ok, life, slotLife, hst] at hslot
      omega
    · exact hst
  have htorn : smDispatch P E i .torDied v = (.ok (), tornDown i v) := by
    cases hst : v.ps.state <;> exact smDispatch_torn (by rw [hst]; rfl) rfl
  rw [htorn, life_tornDown]
  exact Moves.one (.torn hne)

theorem drainSlot_moves
    (hok : (life v).Ok) :
    Moves i (life v) (life (drainSlot P E i v)) := by
  unfold drainSlot
  split
  · exact processPeerFrames_moves _ hok
  · exact Moves.refl _

/-- What a free slot looks like. -/
theorem life_idle
    (hok : (life v).Ok) (hst : v.ps.state = .idle) :
    v.ps.fd = -1 ∧ v.ps.hs = none ∧ isBlank v.ps = true := by
  have hslot := hok.1
  simp only [SlotLife.Ok, life, slotLife, hst] at hslot
  exact ⟨hslot.1, by simpa using hslot.2.1, by simpa using hslot.2.2.2.2.2⟩

theorem handshakeInit_index
    {initiator : Bool} {priv pub : Option Key} {hs : NoiseHandshake}
    (h : handshakeInit P initiator priv pub = .ok hs) :
    hs.msgIndex = 0 := by
  unfold handshakeInit at h
  split at h
  · cases h
    rfl
  · cases h

/-- A free slot that was filled in and emptied again. -/
theorem life_undone
    {u : View} {hs : Option NoiseHandshake} {onion target : Bytes}
    (hok : (life v).Ok) (hst : v.ps.state = .idle)
    (hu : u.ps = { v.ps with fd := -1, hs := hs, peerOnion := onion, connectTarget := target })
    (hhs : hs = none) (honion : onion = []) (htarget : target = [])
    (hsh : QuietShared v.sh u.sh) :
    life u = life v := by
  obtain ⟨hfd, hnone, hblank⟩ := life_idle hok hst
  simp only [isBlank, Bool.and_eq_true, decide_eq_true_eq] at hblank
  obtain ⟨⟨⟨⟨-, hblankOnion⟩, hblankTarget⟩, -⟩, -⟩ := hblank
  have hps : u.ps = v.ps := by
    rw [hu, hhs, honion, htarget]
    obtain ⟨ps, sh⟩ := v
    obtain ⟨⟩ := ps
    dsimp only at hfd hnone hblankOnion hblankTarget ⊢
    rw [hfd, hnone, hblankOnion, hblankTarget]
  have h : u = { v with sh := u.sh } := by
    rw [← hps]
  rw [h]
  exact life_shared hsh

end Parts

end App
end Noxtor
