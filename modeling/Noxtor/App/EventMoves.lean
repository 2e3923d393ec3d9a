import Noxtor.App.Answers

/-!
# Every event is made of moves

Accepting, dialling, reading and writing a slot, and every line of the user, with what
they come to: `appStep_cases` says that a part of the event loop is a sequence of moves, or
the answer to the only pending prompt.
-/

namespace Noxtor
namespace App

open ByteString Noise

section Connect

variable {P : Primitives} {E : Env} {i : Slot} {v : View}

/-- A slot that has been filled in by hand and then dispatched is connected. -/
theorem connect_moves
    {u : View} (hs : NoiseHandshake) (st : PeerState) (peerFd : Nat)
    (hidle : v.ps.state = .idle) (hst : st.Handshaking) (hidx : hs.msgIndex < 3)
    (hu : slotLife u.ps = { slotLife v.ps with
      state := st, fd := peerFd, hs := some (hs.msgIndex, hs.rs), blank := true })
    (hsh : QuietShared v.sh u.sh) :
    Moves i (life v) (life u) := by
  have h : life u = { life v with slot := { (life v).slot with
      state := st, fd := peerFd, hs := some (hs.msgIndex, hs.rs), blank := true } } := by
    obtain ⟨h1, h2, h3, h4, h5⟩ := hsh
    simp only [life, hu, h1, h2, h3, h4, h5]
  rw [h]
  exact Moves.one (.connect st peerFd hs.msgIndex hs.rs hidle hst hidx)

theorem smDispatch_peerAccepted
    (hst : v.ps.state = .idle) :
    smDispatch P E i .peerAccepted v =
      (.ok (), v.setPs fun ps => { ps with state := .handshakeResp }) :=
  smDispatch_move (t := ⟨.idle, .peerAccepted, .handshakeResp, .accept⟩)
    (by rw [hst]; rfl) (Or.inr (Or.inl rfl))

theorem smDispatch_connectCmd
    (hst : v.ps.state = .idle) :
    smDispatch P E i .connectCmd v =
      (.ok (), v.setPs fun ps => { ps with state := .handshakeInit }) :=
  smDispatch_move (t := ⟨.idle, .connectCmd, .handshakeInit, .connect⟩)
    (by rw [hst]; rfl) (Or.inl rfl)

theorem acceptSlot_moves
    (peerFd : Nat) (hok : (life v).Ok) (hst : v.ps.state = .idle) :
    Moves i (life v) (life (acceptSlot P E i peerFd v)) := by
  obtain ⟨-, hhs, hblank⟩ := life_idle hok hst
  have honion : v.ps.peerOnion = [] ∧ v.ps.connectTarget = [] := by
    simp only [isBlank, Bool.and_eq_true, decide_eq_true_eq] at hblank
    exact ⟨hblank.1.1.1.2, hblank.1.1.2⟩
  have hquiet : ∀ (t : Nat), QuietShared v.sh { v.sh with tick := t } := by
    intro t
    exact ⟨rfl, rfl, rfl, rfl, rfl⟩
  unfold acceptSlot
  dsimp only
  split
  · exact Moves.of_eq (life_undone hok hst rfl hhs honion.1 honion.2 (hquiet _))
  unfold sodiumMalloc
  cases E.malloc _ with
  | false =>
      exact Moves.of_eq (life_undone hok hst rfl rfl honion.1 honion.2 (hquiet _))
  | true =>
      dsimp only
      cases hinit : handshakeInit P false _ _ with
      | error err =>
          exact Moves.of_eq (life_undone hok hst rfl rfl honion.1 honion.2 (hquiet _))
      | ok hs =>
          have hidx : hs.msgIndex = 0 := handshakeInit_index hinit
          dsimp only
          generalize hv3 : View.setSh _ (hsTicks _) = v3
          have hst3 : v3.ps.state = .idle := by
            rw [← hv3]
            exact hst
          rw [smDispatch_peerAccepted hst3]
          subst hv3
          refine connect_moves hs .handshakeResp peerFd hst
            (Or.inr rfl) (by omega) ?_ ?_
          · simp [slotLife, hsTicks]
          · simp [QuietShared, hsTicks, View.tickOn, View.uiPrintSystem, View.say]

/-- The first message of a dialled connection goes out, or the slot is torn down. -/
theorem dialHello_moves
    (hs : NoiseHandshake) (target : Bytes) (hst : v.ps.state.Handshaking)
    (hhs : v.ps.hs = some hs) (hidx : hs.msgIndex = 0) :
    Moves i (life v) (life (dialHello P E i target v)) := by
  unfold dialHello
  rw [hhs]
  dsimp only
  have hreject : ∀ (message : String) (hs' : NoiseHandshake) (u : View),
      u.ps.state = v.ps.state → life u = (life v).setHs (some (hs'.msgIndex, hs'.rs)) →
      Moves i (life v) (life (rejectHandshake P E i message u)) := by
    intro message hs' u hust hu
    rw [life_rejectHandshake message (by rw [hust]; exact hst), hu]
    exact Moves.one (.torn hst.ne_idle)
  have hlife : ∀ hs', life ((hsTicks v).setPs fun ps => { ps with hs := some hs' }) =
      (life v).setHs (some (hs'.msgIndex, hs'.rs)) := by
    intro hs'
    rw [← life_tickOn v, ← life_tickOn v.tickOn]
    simp [life, slotLife, Life.setHs, hsTicks, hst.ne_idle]
  cases hwrite : handshakeWrite P (hsCallAt E v.sh.tick) (.null 0) (some noiseMaxHandshakeLen)
      hs with
  | error err hs' =>
      exact hreject _ hs' _ rfl (hlife hs')
  | ok msg hs' =>
      dsimp only
      have hindex := (handshakeWrite_index hwrite).2
      generalize hv2 : ((hsTicks v).setPs fun ps => { ps with hs := some hs' }) = v2
      have h2 : life v2 = (life v).setHs (some (hs'.msgIndex, hs'.rs)) := by
        rw [← hv2]
        exact hlife hs'
      have hst2 : v2.ps.state = v.ps.state := by
        rw [← hv2]
        rfl
      have hw := life_sockWrite E i (frameBytes noxMsgCtrl v2.ps.txSeq msg) v2
      have hps := sockWrite_ps E i (frameBytes noxMsgCtrl v2.ps.txSeq msg) v2
      generalize sockWrite E i (frameBytes noxMsgCtrl v2.ps.txSeq msg) v2 = w at hw hps ⊢
      obtain ⟨r, v3⟩ := w
      have h3 : life v3 = (life v).setHs (some (hs'.msgIndex, hs'.rs)) := hw.trans h2
      have hst3 : v3.ps.state = v.ps.state := by
        rw [show v3.ps = v2.ps from hps, hst2]
      cases r with
      | ok n =>
          dsimp only
          split
          · exact hreject _ hs' v3 hst3 h3
          · have hturn : life v3 = { life v with slot := { (life v).slot with
                hs := some (hs'.msgIndex, hs'.rs) } } := h3
            have hend : Moves i (life v) (life v3) := by
              rw [hturn]
              exact Moves.one (.turn _ _ hst (by omega))
            exact hend
      | eagain =>
          exact hreject _ hs' v3 hst3 h3
      | eintr =>
          exact hreject _ hs' v3 hst3 h3
      | err =>
          exact hreject _ hs' v3 hst3 h3

theorem dialSlot_moves
    (target : Bytes) (peerFd : Nat) (hok : (life v).Ok) (hst : v.ps.state = .idle) :
    Moves i (life v) (life (dialSlot P E i target peerFd v)) := by
  obtain ⟨-, hhs, -⟩ := life_idle hok hst
  unfold dialSlot
  dsimp only
  split
  · exact Moves.of_eq (life_undone hok hst rfl hhs rfl rfl ⟨rfl, rfl, rfl, rfl, rfl⟩)
  unfold sodiumMalloc
  cases E.malloc _ with
  | false =>
      refine Moves.of_eq (life_undone hok hst rfl rfl rfl rfl ?_)
      simp [QuietShared, dialUndo, View.uiPrintError, View.say, View.tickOn]
  | true =>
      dsimp only
      cases hinit : handshakeInit P true _ _ with
      | error err =>
          refine Moves.of_eq (life_undone hok hst rfl rfl rfl rfl ?_)
          simp [QuietShared, dialUndo, View.uiPrintError, View.say, View.tickOn]
      | ok hs =>
          have hidx : hs.msgIndex = 0 := handshakeInit_index hinit
          have hmark : marks [.dialled i (strCopy noxOnionLen target)] = [] := rfl
          dsimp only
          generalize hv3 : hsTicks _ = v3
          have hst3 : v3.ps.state = .idle := by
            rw [← hv3]
            exact hst
          rw [smDispatch_connectCmd hst3]
          subst hv3
          refine Moves.trans ?_ (dialHello_moves hs target (Or.inl rfl) rfl hidx)
          refine connect_moves hs .handshakeInit peerFd hst
            (Or.inl rfl) (by omega) ?_ ?_
          · simp [slotLife, hsTicks]
          · simp [QuietShared, hsTicks, View.tickOn, View.emit, hmark]

end Connect

section Data

variable {P : Primitives} {E : Env} {i : Slot} {v : View}

theorem readSlot_moves
    (fd : Nat) (hok : (life v).Ok) (hne : v.ps.state ≠ .idle) :
    Moves i (life v) (life (readSlot P E i fd v)) := by
  unfold readSlot
  dsimp only
  split
  · have h1 : Moves i (life v) (life (processPeerFrames P E i fd v.tickOn)) :=
      processPeerFrames_moves (v := v.tickOn) fd hok
    split
    · exact h1.trans (peerDisconnected_moves _)
    · exact h1
  have hgone : Moves i (life v) (life (smDispatch P E i .peerDisconnected
      (v.tickOn.tickOn.uiPrintSystem "[*] peer ayrıldı" [])).2) := by
    have hmoves := peerDisconnected_moves (P := P) (E := E) (i := i)
      (v.tickOn.tickOn.uiPrintSystem "[*] peer ayrıldı" [])
    rwa [life_uiPrintSystem, life_tickOn, life_tickOn] at hmoves
  cases E.recv v.tickOn.sh.tick with
  | data b =>
      dsimp only
      split
      · exact hgone
      · generalize hu : touchLastActive E (v.tickOn.tickOn.setPs _) = u
        have hlife : life u = life v := by
          rw [← hu, life_touchLastActive]
          exact life_setPs (v := v.tickOn.tickOn) (slotLife_recv hne _)
        rw [← hlife] at hok ⊢
        exact processPeerFrames_moves fd hok
  | eagain =>
      exact Moves.refl _
  | eintr =>
      exact Moves.refl _
  | err =>
      exact hgone

/-- A transfer is only active in a session. -/
theorem inSession_of_txActive
    (hok : (life v).Ok) (hact : v.ps.txFile.active = true) :
    v.ps.state.InSession := by
  have hslot := hok.1
  unfold SlotLife.Ok at hslot
  cases hst : v.ps.state <;> simp [life, slotLife, hst, hact] at hslot
  · exact Or.inl rfl
  · exact Or.inr rfl

/-- The `EPOLLOUT` branch does not change the state of the slot. -/
theorem writeSlot_moves
    (hok : (life v).Ok) :
    Moves i (life v) (life (writeSlot P E i v)) ∧ (writeSlot P E i v).ps.state = v.ps.state := by
  unfold writeSlot
  split
  · rename_i hact
    obtain ⟨b, hb⟩ := life_fileTransferHandleTx (P := P) (E := E) (i := i) hact
    constructor
    · exact tx_moves (inSession_of_txActive hok hact) hb
    · exact congrArg (fun a => a.slot.state) hb
  · exact ⟨Moves.refl _, rfl⟩

theorem peerReady_moves
    {s : AppState} (fd : Nat) (out inp : Bool) (hok : (world s).Ok) :
    WorldMoves (world s) (world (peerReady P E fd out inp s)) := by
  unfold peerReady
  cases hfind : findPeerByFd s fd with
  | none =>
      exact WorldMoves.refl _
  | some i =>
      apply onSlot_moves
      have hoki : (life (s.view i)).Ok := hok i
      have hfd : (s.view i).ps.fd = fd := by
        have h := List.find?_some hfind
        exact of_decide_eq_true h
      have hne : (s.view i).ps.state ≠ .idle := by
        intro hst
        have := (life_idle hoki hst).1
        omega
      generalize s.view i = v at hoki hne ⊢
      have hwrite : Moves i (life v) (life (if out then writeSlot P E i v else v)) ∧
          (if out then writeSlot P E i v else v).ps.state = v.ps.state := by
        split
        · exact writeSlot_moves hoki
        · exact ⟨Moves.refl _, rfl⟩
      dsimp only
      generalize (if out then writeSlot P E i v else v) = v1 at hwrite ⊢
      obtain ⟨h1, hst1⟩ := hwrite
      split
      · exact h1.trans (readSlot_moves fd (h1.ok hoki) (by rw [hst1]; exact hne))
      · exact h1

end Data

section Loop

variable {P : Primitives} {E : Env} {s : AppState}

/-- The slot that `freeSlot` finds is idle. -/
theorem freeSlot_idle
    {i : Slot} (h : freeSlot s = some i) :
    (s.peers i).state = .idle := by
  have h1 := List.find?_some h
  simp only [decide_eq_true_eq] at h1
  exact h1.2

theorem torCheck_moves
    (hok : (world s).Ok) :
    WorldMoves (world s) (world (torCheck P E s)) := by
  have hquiet : QuietShared s.sh (torDead E s.sh).2 := by
    unfold torDead
    dsimp only
    split
    · exact ⟨rfl, rfl, rfl, rfl, rfl⟩
    · split <;> exact ⟨rfl, rfl, rfl, rfl, rfl⟩
  have h1 : world { s with sh := (torDead E s.sh).2 } = world s := world_shared hquiet
  unfold torCheck
  dsimp only
  generalize (torDead E s.sh).1 = dead
  generalize (torDead E s.sh).2 = sh1 at h1 ⊢
  split
  swap
  · exact WorldMoves.of_eq h1
  rw [world_uiPrintError, ← h1]
  have h2 : WorldMoves (world { s with sh := sh1 })
      (world (forSlots (torDiedSlot P E) { s with sh := sh1 })) :=
    forSlots_moves (fun i v hv => torDiedSlot_moves hv) (by rw [h1]; exact hok)
  generalize forSlots (torDiedSlot P E) { s with sh := sh1 } = s2 at h2 ⊢
  have h3 : world { s2 with sh := torForget s2.sh } = world s2 :=
    world_shared ⟨rfl, rfl, rfl, rfl, rfl⟩
  rw [h3]
  exact h2

theorem inboundWindow_quiet
    (now : Int) (sh : Shared) :
    QuietShared sh (inboundWindow now sh) := by
  unfold inboundWindow
  split <;> exact ⟨rfl, rfl, rfl, rfl, rfl⟩

theorem acceptPeer_moves
    (hok : (world s).Ok) :
    WorldMoves (world s) (world (acceptPeer P E s)) := by
  unfold acceptPeer
  cases E.accept s.sh.tick with
  | none =>
      exact WorldMoves.of_eq (world_shared ⟨rfl, rfl, rfl, rfl, rfl⟩)
  | some peerFd =>
      dsimp only
      cases hfree : freeSlot _ with
      | none =>
          exact WorldMoves.of_eq (world_shared ⟨rfl, rfl, rfl, rfl, rfl⟩)
      | some i =>
          dsimp only
          have hq : QuietShared s.sh (inboundWindow (E.clock (s.sh.tick + 1))
              { s.sh with tick := s.sh.tick + 1 + 1 }) :=
            QuietShared.trans ⟨rfl, rfl, rfl, rfl, rfl⟩ (inboundWindow_quiet _ _)
          generalize inboundWindow (E.clock (s.sh.tick + 1))
            { s.sh with tick := s.sh.tick + 1 + 1 } = sh2 at hq ⊢
          have h2 : world { s with sh := sh2 } = world s := world_shared hq
          split
          · exact WorldMoves.of_eq h2
          · rw [← h2]
            apply onSlot_moves
            apply acceptSlot_moves
            · rw [← world_view, h2]
              exact hok i
            · exact freeSlot_idle (s := { s with sh := _ }) hfree

end Loop

section Lines

variable {P : Primitives} {E : Env} {s : AppState}

theorem findPeerByNameOrOnion_world
    (s : AppState) (arg : Bytes) :
    world (findPeerByNameOrOnion E s arg).2 = world s := by
  unfold findPeerByNameOrOnion
  dsimp only
  split
  · rfl
  split
  · rfl
  have hq := dbGetContact_quiet (E := E) arg s.sh
  generalize dbGetContact E arg s.sh = r at hq ⊢
  obtain ⟨_ | _, sh⟩ := r
  · exact world_shared hq
  · exact world_shared hq

theorem sendAndReport_moves
    (i : Slot) (msg : Bytes) :
    WorldMoves (world s) (world (sendAndReport P E i msg s)) := by
  unfold sendAndReport
  apply onSlot_moves
  have h := sendSegmentedMessageTo_moves (P := P) (E := E) (i := i) msg (s.view i)
  generalize sendSegmentedMessageTo P E i msg (s.view i) = r at h ⊢
  obtain ⟨_ | _, v⟩ := r
  · exact h
  · exact h

theorem connectCommand_moves
    (target : Bytes) (hok : (world s).Ok) :
    WorldMoves (world s) (world (connectCommand P E target s)) := by
  unfold connectCommand
  split
  · exact WorldMoves.refl _
  split
  · exact WorldMoves.refl _
  cases hfree : freeSlot s with
  | none =>
      exact WorldMoves.refl _
  | some i =>
      dsimp only
      split
      · exact WorldMoves.refl _
      have hq : QuietShared s.sh (outboundWindow (E.clock s.sh.tick)
          { s.sh with tick := s.sh.tick + 1 }) := by
        unfold outboundWindow
        split <;> exact ⟨rfl, rfl, rfl, rfl, rfl⟩
      generalize outboundWindow (E.clock s.sh.tick) { s.sh with tick := s.sh.tick + 1 } = sh1 at hq ⊢
      split
      · exact WorldMoves.of_eq (world_shared hq)
      have hq2 : QuietShared s.sh
          { sh1 with hsAttemptCount := sh1.hsAttemptCount + 1, tick := sh1.tick + 1 } :=
        hq.trans ⟨rfl, rfl, rfl, rfl, rfl⟩
      generalize ({ sh1 with hsAttemptCount := sh1.hsAttemptCount + 1, tick := sh1.tick + 1 } : Shared)
        = sh2 at hq2 ⊢
      have h2 : world { s with sh := sh2 } = world s := world_shared hq2
      cases E.socks5Connect sh1.tick with
      | none =>
          exact WorldMoves.of_eq h2
      | some peerFd =>
          dsimp only
          rw [← h2]
          apply onSlot_moves
          apply dialSlot_moves
          · rw [← world_view, h2]
            exact hok i
          · exact freeSlot_idle hfree

theorem addCommand_moves
    (args : Bytes) :
    WorldMoves (world s) (world (addCommand E args s)) := by
  apply WorldMoves.of_eq
  unfold addCommand
  split
  · rfl
  dsimp only
  generalize nextWord (skipBlanks args) = w
  obtain ⟨onion, rest⟩ := w
  dsimp only
  split
  · rfl
  split
  · rfl
  split
  · rfl
  split
  · rfl
  split
  · rfl
  have hq := dbAddContact_quiet (E := E) onion (skipBlanks rest) (Block.zero 32) s.sh
  generalize dbAddContact E onion (skipBlanks rest) (Block.zero 32) s.sh = r at hq ⊢
  obtain ⟨_ | _, sh⟩ := r
  · exact world_shared hq
  · exact world_shared hq

theorem queueSegmentedMessage_quiet
    (onion msg : Bytes) (sh : Shared) :
    QuietShared sh (queueSegmentedMessage E onion msg sh).2 := by
  unfold queueSegmentedMessage
  split
  · exact ⟨rfl, rfl, rfl, rfl, rfl⟩
  · exact QuietShared.trans ⟨rfl, rfl, rfl, rfl, rfl⟩ (queueLoop_quiet onion msg _ _ _ _)

theorem msgCommand_moves
    (args : Bytes) :
    WorldMoves (world s) (world (msgCommand P E args s)) := by
  unfold msgCommand
  dsimp only
  generalize nextWord (skipBlanks args) = w
  obtain ⟨onion, rest⟩ := w
  dsimp only
  split
  · exact WorldMoves.refl _
  split
  · exact WorldMoves.refl _
  split
  · exact WorldMoves.refl _
  have h1 := findPeerByNameOrOnion_world (E := E) s onion
  generalize findPeerByNameOrOnion E s onion = r at h1 ⊢
  obtain ⟨found, s1⟩ := r
  rw [← h1]
  dsimp only
  split
  · exact sendAndReport_moves _ _
  split
  · exact WorldMoves.refl _
  have hq := queueSegmentedMessage_quiet (E := E) onion (skipBlanks rest) s1.sh
  generalize queueSegmentedMessage E onion (skipBlanks rest) s1.sh = q at hq ⊢
  obtain ⟨_ | _, sh⟩ := q
  · exact WorldMoves.of_eq (world_shared hq)
  · exact WorldMoves.of_eq (world_shared hq)

theorem fileCommand_moves
    (args : Bytes) (hok : (world s).Ok) :
    WorldMoves (world s) (world (fileCommand P E args s)) := by
  unfold fileCommand
  cases sendablePeer s with
  | none =>
      exact WorldMoves.refl _
  | some i =>
      exact onSlot_moves (fileTransferStart_moves _ (hok i))

theorem foldSystem_world
    {α : Type} (text : String) (f : α → List Bytes) (rows : List α) :
    world (rows.foldl (fun t row => t.uiPrintSystem text (f row)) s) = world s := by
  induction rows generalizing s with
  | nil =>
      rfl
  | cons row rows ih =>
      rw [List.foldl_cons, ih, world_uiPrintSystem]

theorem listCommand_moves :
    WorldMoves (world s) (world (listCommand E s)) := by
  obtain ⟨ticks, es, lines, hlist, hes, -⟩ := listCommand_eq E s
  have hmarks : marks (s.sh.log ++ es) = marks s.sh.log := by
    refine marks_append_quiet (fun e he => ?_)
    obtain ⟨rows, rfl⟩ := hes e he
    rfl
  rw [hlist]
  exact WorldMoves.of_eq (world_shared ⟨rfl, rfl, rfl, hmarks, rfl⟩)

theorem switchCommand_moves
    (args : Bytes) :
    WorldMoves (world s) (world (switchCommand E args s)) := by
  unfold switchCommand
  dsimp only
  split
  · exact WorldMoves.refl _
  have h1 := findPeerByNameOrOnion_world (E := E) s (skipBlanks args)
  generalize findPeerByNameOrOnion E s (skipBlanks args) = r at h1 ⊢
  obtain ⟨_ | i, s1⟩ := r
  · exact WorldMoves.of_eq h1
  · dsimp only
    split
    · exact WorldMoves.of_eq h1
    · rw [world_uiPrintSystem, ← h1]
      exact WorldMoves.of_eq (world_shared ⟨rfl, rfl, rfl, rfl, rfl⟩)

theorem disconnectCommand_moves :
    WorldMoves (world s) (world (disconnectCommand P E s)) := by
  unfold disconnectCommand
  cases s.activePeer with
  | none =>
      exact WorldMoves.refl _
  | some i =>
      dsimp only
      split
      · exact WorldMoves.refl _
      · rw [world_uiPrintSystem]
        exact onSlot_moves (peerDisconnected_moves _)

theorem WorldMoves.ite
    {w : World} {p : Prop} [Decidable p] {a b : AppState}
    (ha : WorldMoves w (world a)) (hb : WorldMoves w (world b)) :
    WorldMoves w (world (if p then a else b)) := by
  split
  · exact ha
  · exact hb

theorem commandLine_moves
    (line : Bytes) (hok : (world s).Ok) :
    WorldMoves (world s) (world (commandLine P E line s)) := by
  have hquit : WorldMoves (world s) (world { s with sh := { s.sh with running := false } }) :=
    WorldMoves.of_eq (world_shared ⟨rfl, rfl, rfl, rfl, rfl⟩)
  have hsystem : ∀ t a, WorldMoves (world s) (world (s.uiPrintSystem t a)) := by
    intro t a
    exact WorldMoves.refl _
  have herror : ∀ t a, WorldMoves (world s) (world (s.uiPrintError t a)) := by
    intro t a
    exact WorldMoves.refl _
  unfold commandLine
  refine WorldMoves.ite ?_ ?_
  · -- a line that begins with two slashes
    cases sendablePeer s with
    | none =>
        exact WorldMoves.refl _
    | some i =>
        exact sendAndReport_moves i _
  apply WorldMoves.ite hquit
  apply WorldMoves.ite (hsystem _ _)
  apply WorldMoves.ite (hsystem _ _)
  apply WorldMoves.ite (addCommand_moves _)
  apply WorldMoves.ite (msgCommand_moves _)
  apply WorldMoves.ite (connectCommand_moves _ hok)
  apply WorldMoves.ite (fileCommand_moves _ hok)
  apply WorldMoves.ite listCommand_moves
  apply WorldMoves.ite (switchCommand_moves _)
  apply WorldMoves.ite disconnectCommand_moves
  apply WorldMoves.ite (hsystem _ _)
  apply WorldMoves.ite (herror _ _)
  exact herror _ _

theorem messageLine_moves
    (line : Bytes) :
    WorldMoves (world s) (world (messageLine P E line s)) := by
  unfold messageLine
  cases sendablePeer s with
  | none =>
      exact WorldMoves.refl _
  | some i =>
      dsimp only
      split
      · exact WorldMoves.refl _
      · exact sendAndReport_moves i line

/-- Exactly slot `i` waits for an answer, and gets it. -/
def WorldAnswer (i : Slot) (yes : Bool) (w w' : World) : Prop :=
  (∀ j, (w.slots j).state = .tofuPending ↔ j = i) ∧
    ∃ a, Answer i yes (w.view i) a ∧ w' = w.put i a

/-- A line is the answer to the only pending prompt, or made of moves. -/
theorem processLine_cases
    (line : Bytes) (hok : (world s).Ok) :
    WorldMoves (world s) (world (processLine P E line s)) ∨
      ∃ i, pendingSlots s = [i] ∧ (isYes line = true ∨ isNo line = true) ∧
        processLine P E line s = s.onSlot i
          (if isYes line then tofuAnswerYes P E i else tofuAnswerNo P E i) ∧
        WorldAnswer i (isYes line) (world s) (world (processLine P E line s)) := by
  unfold processLine
  split
  · rename_i hans
    unfold tofuUserResponse
    cases hp : pendingSlots s with
    | nil =>
        exact absurd hp hans.1
    | cons i rest =>
        cases rest with
        | nil =>
            right
            have hmem : ∀ j, (s.peers j).state = .tofuPending ↔ j = i := by
              intro j
              have h : j ∈ pendingSlots s ↔ (s.peers j).state = .tofuPending := by
                simp [pendingSlots, slots]
              rw [← h, hp, List.mem_singleton]
            have hst : (s.view i).ps.state = .tofuPending := (hmem i).mpr rfl
            refine ⟨i, rfl, hans.2, rfl, hmem, _, ?_, world_onSlot s i _⟩
            rw [world_view]
            cases isYes line with
            | true =>
                exact tofuAnswerYes_answer (hok i) hst
            | false =>
                exact tofuAnswerNo_answer hst
        | cons j rest =>
            left
            apply WorldMoves.of_eq
            dsimp only
            rw [foldSystem_world, world_uiPrintError]
  left
  split
  · exact WorldMoves.refl _
  split
  · exact WorldMoves.refl _
  split
  · exact commandLine_moves line hok
  · exact messageLine_moves line

/-- A part of the event loop is the answer to the only pending prompt, or made of moves. -/
theorem appStep_cases
    (ev : AppEvent) (hok : (world s).Ok) :
    WorldMoves (world s) (world (appStep P E s ev)) ∨
      ∃ text i, ev = .line text ∧ pendingSlots s = [i] ∧
        (isYes (cstr text) = true ∨ isNo (cstr text) = true) ∧
        appStep P E s ev = s.onSlot i
          (if isYes (cstr text) then tofuAnswerYes P E i else tofuAnswerNo P E i) ∧
        WorldAnswer i (isYes (cstr text)) (world s) (world (appStep P E s ev)) := by
  cases ev with
  | timeouts =>
      exact Or.inl (forSlots_moves (fun i v hv => sweepSlot_moves hv) hok)
  | torCheck =>
      exact Or.inl (torCheck_moves hok)
  | drain =>
      exact Or.inl (forSlots_moves (fun i v hv => drainSlot_moves hv) hok)
  | line text =>
      rcases processLine_cases (P := P) (E := E) (cstr text) hok with h | ⟨i, h1, h2, h3, h4⟩
      · exact Or.inl h
      · exact Or.inr ⟨text, i, rfl, h1, h2, h3, h4⟩
  | accept =>
      exact Or.inl (acceptPeer_moves hok)
  | peer fd out inp =>
      exact Or.inl (peerReady_moves fd out inp hok)

/-- Every part of the event loop keeps all slots coherent. -/
theorem appStep_ok
    (ev : AppEvent) (hok : (world s).Ok) :
    (world (appStep P E s ev)).Ok := by
  rcases appStep_cases (P := P) (E := E) ev hok with h | ⟨text, i, -, -, -, -, hpend, a, hans, hput⟩
  · exact h.ok hok
  · rw [hput]
    have ha : a.Ok := hans.ok ((hpend i).mpr rfl) (hok i)
    intro j
    by_cases hj : j = i
    · subst hj
      rw [World.view_put_same]
      exact ha
    · exact ⟨by rw [World.view_put_slot _ a hj]; exact (hok j).1, ha.2⟩

/-- Every run keeps all slots coherent. -/
theorem appRun_ok
    (evs : List AppEvent) (hok : (world s).Ok) :
    (world (appRun P E s evs)).Ok := by
  induction evs generalizing s with
  | nil =>
      exact hok
  | cons ev evs ih =>
      rw [appRun_cons]
      exact ih (appStep_ok ev hok)

/-- The initial slots are coherent. -/
theorem initialState_ok
    (c : Config) :
    (world (initialState c)).Ok := by
  intro i
  constructor
  · exact ⟨rfl, rfl, rfl, rfl, rfl, rfl⟩
  · rfl

end Lines

end App
end Noxtor
