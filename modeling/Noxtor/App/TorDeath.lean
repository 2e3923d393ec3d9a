import Noxtor.App.SlotCoherence
import Noxtor.App.TofuBinding

/-!
# After Tor has died

The Tor check that finds Tor dead tears every slot down, closes the database and forgets the keys.
The loop goes on afterwards: lines of the user, connections and timeouts are still handled.  None
of them brings a slot, a key or the database back, and none of them sends anything.
-/

namespace Noxtor
namespace App

open ByteString Noise

/-- The check finds Tor dead, for the first time. -/
def TorDies (E : Env) (s : AppState) : Prop :=
  (torDead E s.sh).1 = true ∧ 0 < s.sh.torPid

/-- A slot that is not in use. -/
structure Unused (ps : PeerSession) : Prop where
  state : ps.state = .idle
  fd : ps.fd = -1
  hs : ps.hs = none
  session : ps.session = none
  peerOnion : ps.peerOnion = []
  connectTarget : ps.connectTarget = []

/-- The state after the death of Tor. -/
structure Dead (s : AppState) : Prop where
  slot : ∀ i, Unused (s.peers i)
  torPid : s.sh.torPid = 0
  myStaticPriv : s.sh.myStaticPriv = none
  myStaticPub : s.sh.myStaticPub = none
  myOnionSeed : s.sh.myOnionSeed = none
  db : s.sh.ghostMode = false → s.sh.dbOpen = false

/-- The shared state may count on, print and look for contacts without finding one. -/
structure RestsShared (sh sh' : Shared) : Prop where
  torPid : sh'.torPid = sh.torPid
  myStaticPriv : sh'.myStaticPriv = sh.myStaticPriv
  myStaticPub : sh'.myStaticPub = sh.myStaticPub
  myOnionSeed : sh'.myOnionSeed = sh.myOnionSeed
  ghostMode : sh'.ghostMode = sh.ghostMode
  dbOpen : sh'.dbOpen = sh.dbOpen
  fault : sh'.fault = sh.fault
  log : ∃ es, sh'.log = sh.log ++ es ∧ ∀ e ∈ es, ∃ onion, e = .dbGetContact onion none

/-- No slot has changed, and the shared state rests. -/
structure Rests (s s' : AppState) : Prop where
  peers : s'.peers = s.peers
  shared : RestsShared s.sh s'.sh

namespace RestsShared

variable {sh sh' sh'' : Shared}

theorem refl
    (sh : Shared) :
    RestsShared sh sh :=
  ⟨rfl, rfl, rfl, rfl, rfl, rfl, rfl, [], by simp, by simp⟩

theorem trans
    (h : RestsShared sh sh') (h' : RestsShared sh' sh'') :
    RestsShared sh sh'' := by
  obtain ⟨es, hlog, hes⟩ := h.log
  obtain ⟨es', hlog', hes'⟩ := h'.log
  refine ⟨h'.torPid.trans h.torPid, h'.myStaticPriv.trans h.myStaticPriv,
    h'.myStaticPub.trans h.myStaticPub, h'.myOnionSeed.trans h.myOnionSeed,
    h'.ghostMode.trans h.ghostMode, h'.dbOpen.trans h.dbOpen, h'.fault.trans h.fault,
    es ++ es', ?_, ?_⟩
  · rw [hlog', hlog, List.append_assoc]
  · intro e he
    rcases List.mem_append.mp he with he | he
    · exact hes e he
    · exact hes' e he

theorem tick
    (sh : Shared) :
    RestsShared sh { sh with tick := sh.tick + 1 } :=
  ⟨rfl, rfl, rfl, rfl, rfl, rfl, rfl, [], by simp, by simp⟩

theorem tickOn
    {v : View} (h : RestsShared sh v.sh) :
    RestsShared sh v.tickOn.sh :=
  h.trans (.tick v.sh)

theorem uiPrintError
    {v : View} (h : RestsShared sh v.sh) (text : String) (args : List Bytes) :
    RestsShared sh (v.uiPrintError text args).sh :=
  h.trans ⟨rfl, rfl, rfl, rfl, rfl, rfl, rfl, [], (List.append_nil _).symm, by simp⟩

end RestsShared

namespace Rests

variable {s s' s'' : AppState}

theorem refl
    (s : AppState) :
    Rests s s :=
  ⟨rfl, .refl _⟩

theorem trans
    (h : Rests s s') (h' : Rests s' s'') :
    Rests s s'' :=
  ⟨h'.peers.trans h.peers, h.shared.trans h'.shared⟩

/-- A state that rests stays dead. -/
theorem dead
    (h : Rests s s') (hdead : Dead s) :
    Dead s' := by
  constructor
  · rw [h.peers]
    exact hdead.slot
  · rw [h.shared.torPid]
    exact hdead.torPid
  · rw [h.shared.myStaticPriv]
    exact hdead.myStaticPriv
  · rw [h.shared.myStaticPub]
    exact hdead.myStaticPub
  · rw [h.shared.myOnionSeed]
    exact hdead.myOnionSeed
  · rw [h.shared.ghostMode, h.shared.dbOpen]
    exact hdead.db

theorem say
    (s : AppState) (kind : UiKind) (text : String) (args : List Bytes) :
    Rests s (s.say kind text args) :=
  ⟨rfl, rfl, rfl, rfl, rfl, rfl, rfl, rfl, [], by simp [AppState.say], by simp⟩

theorem ite
    {c : Prop} [Decidable c] (h : c → Rests s s') (h' : ¬ c → Rests s s'') :
    Rests s (if c then s' else s'') := by
  split
  · exact h ‹_›
  · exact h' ‹_›

theorem onShared
    {sh : Shared} (h : RestsShared s.sh sh) :
    Rests s { s with sh := sh } :=
  ⟨rfl, h⟩

/-- A slot that is put back as it was. -/
theorem put
    {i : Slot} {v : View} (hps : v.ps = s.peers i) (hsh : RestsShared s.sh v.sh) :
    Rests s (s.put i v) := by
  refine ⟨?_, hsh⟩
  rw [AppState.put, hps]
  exact Function.update_eq_self i s.peers

end Rests

section Slots

variable {P : Primitives} {E : Env} {i : Slot} {v : View}

/-- The undo code of `/connect` leaves an unused slot as it is. -/
theorem Unused.undone
    {ps : PeerSession} (h : Unused ps) :
    { ps with hs := none, fd := -1, peerOnion := [], connectTarget := [] } = ps := by
  obtain ⟨-, hfd, hhs, -, honion, htarget⟩ := h
  cases ps
  simp_all

theorem sweepSlot_unused
    (h : Unused v.ps) :
    sweepSlot P E i v = v := by
  rw [sweepSlot, if_pos ⟨h.fd, h.state⟩]

theorem drainSlot_unused
    (h : Unused v.ps) :
    drainSlot P E i v = v := by
  rw [drainSlot, if_neg]
  rintro ⟨hses, -⟩
  exact hses h.session

/-- Without keys an accepted connection is closed again. -/
theorem acceptSlot_unused
    (h : Unused v.ps) (hpriv : v.sh.myStaticPriv = none) (peerFd : Nat) :
    acceptSlot P E i peerFd v = if E.epollAdd v.sh.tick then v.tickOn.tickOn else v.tickOn := by
  have hps : { v.ps with hs := none, fd := -1 } = v.ps := by
    rw [← h.hs, ← h.fd]
  have hfd : { v.ps with fd := -1 } = v.ps := by
    rw [← h.fd]
  cases hadd : E.epollAdd v.sh.tick with
  | false =>
      simp [acceptSlot, View.tickOn, View.setPs, View.setSh, hadd, hfd]
  | true =>
      cases hmem : E.malloc (v.sh.tick + 1) <;>
        simp [acceptSlot, View.tickOn, View.setPs, View.setSh, sodiumMalloc, hadd, hmem,
          handshakeInit, hpriv, hps]

/-- Without keys a dialled connection is closed again. -/
theorem dialSlot_unused
    (h : Unused v.ps) (hpriv : v.sh.myStaticPriv = none) (target : Bytes) (peerFd : Nat) :
    dialSlot P E i target peerFd v =
      if E.epollAdd v.sh.tick then
        v.tickOn.tickOn.uiPrintError
          (if E.malloc (v.sh.tick + 1) then "Handshake başlatılamadı" else "arena dolu") []
      else v.tickOn.uiPrintError "bağlantı kayıt hatası" [] := by
  have hps := h.undone
  have hfd : { v.ps with fd := -1, peerOnion := [], connectTarget := [] } = v.ps := by
    rw [← h.undone]
  cases hadd : E.epollAdd v.sh.tick with
  | false =>
      simp [dialSlot, dialUndo, View.tickOn, View.setPs, View.setSh, View.uiPrintError, View.say,
        hadd, hfd]
  | true =>
      cases hmem : E.malloc (v.sh.tick + 1) <;>
        simp [dialSlot, dialUndo, View.tickOn, View.setPs, View.setSh, View.uiPrintError, View.say,
          sodiumMalloc, hadd, hmem, handshakeInit, hpriv, hps]

end Slots

section Steps

variable {P : Primitives} {E : Env} {s : AppState}

theorem forSlots_self
    {f : Slot → View → View} (h : ∀ i, f i (s.view i) = s.view i) :
    forSlots f s = s := by
  have hslot : ∀ i, s.onSlot i (f i) = s := by
    intro i
    rw [AppState.onSlot, h i]
    simp [AppState.put, AppState.view]
  unfold forSlots
  induction slots with
  | nil =>
      rfl
  | cons i rest ih =>
      rw [List.foldl_cons, hslot i, ih]

namespace Dead

/-- Tor does not die twice. -/
theorem torCheck_eq
    (h : Dead s) :
    torCheck P E s = { s with sh := (torDead E s.sh).2 } := by
  have hpid : (torDead E s.sh).2.torPid = 0 := by
    rw [← h.torPid]
    unfold torDead
    dsimp only
    split_ifs <;> rfl
  unfold torCheck
  dsimp only
  rw [if_neg]
  rintro ⟨-, hpos⟩
  rw [hpid] at hpos
  exact absurd hpos (Nat.lt_irrefl 0)

theorem peerReady_eq
    (h : Dead s) (fd : Nat) (out inp : Bool) :
    peerReady P E fd out inp s = s := by
  have hnone : findPeerByFd s fd = none := by
    apply List.find?_eq_none.mpr
    intro i _
    rw [(h.slot i).fd]
    simp
  rw [peerReady, hnone]

theorem sendablePeer_eq
    (h : Dead s) :
    sendablePeer s = none := by
  unfold sendablePeer
  cases s.activePeer with
  | none =>
      rfl
  | some i =>
      exact if_pos (.inl (h.slot i).session)

theorem pendingSlots_eq
    (h : Dead s) :
    pendingSlots s = [] := by
  apply List.filter_eq_nil_iff.mpr
  intro i _
  rw [(h.slot i).state]
  decide

/-- The lookup of a peer finds none. -/
theorem findPeer_eq
    (h : Dead s) (arg : Bytes) :
    (findPeerByNameOrOnion E s arg).1 = none ∧ Rests s (findPeerByNameOrOnion E s arg).2 := by
  have hnone : (slots.find? fun i =>
      ¬ ((s.peers i).fd < 0 ∧ (s.peers i).state = .idle) ∧
        (((s.peers i).name ≠ [] ∧ (s.peers i).name = arg) ∨ (s.peers i).peerOnion = arg)) =
      none := by
    apply List.find?_eq_none.mpr
    intro i _
    rw [(h.slot i).fd, (h.slot i).state]
    simp
  unfold findPeerByNameOrOnion
  dsimp only
  rw [hnone]
  cases hghost : s.sh.ghostMode with
  | true =>
      exact ⟨rfl, .refl s⟩
  | false =>
      have hdb := h.db hghost
      simp only [dbGetContact, hdb, Bool.not_false, if_true, Bool.false_eq_true, if_false]
      exact ⟨trivial, rfl, rfl, rfl, rfl, rfl, hghost ▸ rfl, hdb ▸ rfl, rfl,
        [.dbGetContact arg none], rfl, by simp⟩

theorem addCommand_rests
    (h : Dead s) (args : Bytes) :
    Rests s (addCommand E args s) := by
  unfold addCommand
  cases hghost : s.sh.ghostMode with
  | true =>
      exact .say s _ _ _
  | false =>
      have hdb := h.db hghost
      simp only [dbAddContact, hdb, Bool.not_false, if_true, Bool.false_eq_true, if_false]
      split_ifs <;> exact .say s _ _ _

theorem queueSegmentedMessage_rests
    {sh : Shared} (hdb : sh.dbOpen = false) (onion msg : Bytes) :
    RestsShared sh (queueSegmentedMessage E onion msg sh).2 := by
  have htick := RestsShared.tick sh
  unfold queueSegmentedMessage
  split_ifs
  · exact htick
  · cases msg with
    | nil =>
        exact htick
    | cons c rest =>
        simp only [List.length_cons, queueLoop, dbQueueMessage, hdb, Bool.not_false, if_true,
          Nat.succ_pos, Nat.lt_irrefl, gt_iff_lt, if_false]
        exact hdb ▸ htick

/-- A message finds no peer, and the queue refuses it. -/
theorem msgCommand_rests
    (h : Dead s) (args : Bytes) :
    Rests s (msgCommand P E args s) ∧ ∀ P', msgCommand P' E args s = msgCommand P E args s := by
  obtain ⟨hnone, hrests⟩ := h.findPeer_eq (E := E) (nextWord (skipBlanks args)).1
  unfold msgCommand
  dsimp only
  generalize findPeerByNameOrOnion E s (nextWord (skipBlanks args)).1 = r at hnone hrests ⊢
  rw [hnone, Option.filter_none]
  refine ⟨?_, fun P' => rfl⟩
  dsimp only
  split_ifs with h1 h2 h3 hghost
  · exact .say s _ _ _
  · exact .say s _ _ _
  · exact .say s _ _ _
  · exact hrests.trans (.say r.2 _ _ _)
  · have hdb := (hrests.dead h).db (Bool.eq_false_iff.mpr hghost)
    have hqueue := queueSegmentedMessage_rests (E := E) hdb (nextWord (skipBlanks args)).1
      (skipBlanks (nextWord (skipBlanks args)).2)
    generalize queueSegmentedMessage E (nextWord (skipBlanks args)).1
      (skipBlanks (nextWord (skipBlanks args)).2) r.2.sh = q at hqueue ⊢
    have hq : Rests s { r.2 with sh := q.2 } := hrests.trans ⟨rfl, hqueue⟩
    obtain ⟨res, sh1⟩ := q
    cases res with
    | ok u =>
        exact hq.trans (.say _ _ _ _)
    | error e =>
        exact hq.trans (.say _ _ _ _)

theorem outboundWindow_rests
    (now : Int) (sh : Shared) :
    RestsShared sh (outboundWindow now { sh with tick := sh.tick + 1 }) := by
  unfold outboundWindow
  split_ifs <;> exact ⟨rfl, rfl, rfl, rfl, rfl, rfl, rfl, [], by simp, by simp⟩

theorem attempt_rests
    (sh : Shared) :
    RestsShared sh { sh with hsAttemptCount := sh.hsAttemptCount + 1, tick := sh.tick + 1 } :=
  ⟨rfl, rfl, rfl, rfl, rfl, rfl, rfl, [], by simp, by simp⟩

theorem inboundWindow_rests
    (now : Int) (sh : Shared) :
    RestsShared sh (inboundWindow now { sh with tick := sh.tick + 1 }) := by
  unfold inboundWindow
  split_ifs <;> exact ⟨rfl, rfl, rfl, rfl, rfl, rfl, rfl, [], by simp, by simp⟩

theorem dial_rests
    (h : Dead s) (i : Slot) (target : Bytes) (peerFd : Nat) :
    Rests s (s.onSlot i (dialSlot P E i target peerFd)) ∧
      ∀ P', s.onSlot i (dialSlot P' E i target peerFd) =
        s.onSlot i (dialSlot P E i target peerFd) := by
  have hdial : ∀ P', dialSlot P' E i target peerFd (s.view i) = _ := fun P' =>
    dialSlot_unused (h.slot i) h.myStaticPriv target peerFd
  have htick : RestsShared s.sh (s.view i).tickOn.sh := .tickOn (.refl s.sh)
  simp only [AppState.onSlot, hdial]
  refine ⟨?_, fun P' => trivial⟩
  split
  · exact .put rfl (htick.tickOn.uiPrintError _ _)
  · exact .put rfl (htick.uiPrintError _ _)

theorem accept_rests
    (h : Dead s) (i : Slot) (peerFd : Nat) :
    Rests s (s.onSlot i (acceptSlot P E i peerFd)) ∧
      ∀ P', s.onSlot i (acceptSlot P' E i peerFd) = s.onSlot i (acceptSlot P E i peerFd) := by
  have haccept : ∀ P', acceptSlot P' E i peerFd (s.view i) = _ := fun P' =>
    acceptSlot_unused (h.slot i) h.myStaticPriv peerFd
  have htick : RestsShared s.sh (s.view i).tickOn.sh := .tickOn (.refl s.sh)
  simp only [AppState.onSlot, haccept]
  refine ⟨?_, fun P' => trivial⟩
  split
  · exact .put rfl htick.tickOn
  · exact .put rfl htick

/-- A connection is dialled and closed again. -/
theorem connectCommand_rests
    (h : Dead s) (target : Bytes) :
    Rests s (connectCommand P E target s) ∧
      ∀ P', connectCommand P' E target s = connectCommand P E target s := by
  unfold connectCommand
  split_ifs
  · exact ⟨.say s _ _ _, fun P' => rfl⟩
  · exact ⟨.say s _ _ _, fun P' => rfl⟩
  · cases freeSlot s with
    | none =>
        exact ⟨.say s _ _ _, fun P' => rfl⟩
    | some i =>
        have hwindow := outboundWindow_rests (E.clock s.sh.tick) s.sh
        dsimp only
        generalize outboundWindow (E.clock s.sh.tick) { s.sh with tick := s.sh.tick + 1 } = sh1
          at hwindow ⊢
        have hcount := hwindow.trans (attempt_rests sh1)
        generalize ({ sh1 with
          hsAttemptCount := sh1.hsAttemptCount + 1, tick := sh1.tick + 1 } : Shared) = sh2
          at hcount ⊢
        replace hcount : Rests s { s with sh := sh2 } := .onShared hcount
        split_ifs
        · exact ⟨.say s _ _ _, fun P' => rfl⟩
        · exact ⟨(Rests.onShared hwindow).trans (.say _ _ _ _), fun P' => rfl⟩
        · cases E.socks5Connect sh1.tick with
          | none =>
              exact ⟨hcount.trans (.say _ _ _ _), fun P' => rfl⟩
          | some peerFd =>
              obtain ⟨hrests, heq⟩ := (hcount.dead h).dial_rests (P := P) (E := E) i target peerFd
              exact ⟨hcount.trans hrests, heq⟩

/-- A connection is accepted and closed again. -/
theorem acceptPeer_rests
    (h : Dead s) :
    Rests s (acceptPeer P E s) ∧ ∀ P', acceptPeer P' E s = acceptPeer P E s := by
  have htick := Rests.onShared (RestsShared.tick s.sh)
  unfold acceptPeer
  cases E.accept s.sh.tick with
  | none =>
      exact ⟨htick, fun P' => rfl⟩
  | some peerFd =>
      dsimp only
      cases freeSlot { s with sh := { s.sh with tick := s.sh.tick + 1 } } with
      | none =>
          exact ⟨htick, fun P' => rfl⟩
      | some i =>
          have hwindow := (RestsShared.tick s.sh).trans (inboundWindow_rests
            (E.clock (s.sh.tick + 1)) { s.sh with tick := s.sh.tick + 1 })
          dsimp only at hwindow ⊢
          generalize inboundWindow _ _ = sh2 at hwindow ⊢
          replace hwindow : Rests s { s with sh := sh2 } := .onShared hwindow
          split_ifs
          · exact ⟨hwindow.trans (.say _ _ _ _), fun P' => rfl⟩
          · obtain ⟨hrests, heq⟩ := (hwindow.dead h).accept_rests (P := P) (E := E) i peerFd
            exact ⟨hwindow.trans hrests, heq⟩

theorem listCommand_rests
    (h : Dead s) :
    Rests s (listCommand E s) := by
  cases hghost : s.sh.ghostMode with
  | true =>
      unfold listCommand
      rw [if_pos hghost]
      exact .say s _ _ _
  | false =>
      obtain ⟨ticks, es, lines, hlist, -, hclosed⟩ := listCommand_eq E s
      rw [hlist, hclosed (h.db hghost)]
      exact ⟨rfl, rfl, rfl, rfl, rfl, rfl, rfl, rfl, [], rfl, by simp⟩

theorem switchCommand_rests
    (h : Dead s) (args : Bytes) :
    Rests s (switchCommand E args s) := by
  obtain ⟨hnone, hrests⟩ := h.findPeer_eq (E := E) (skipBlanks args)
  unfold switchCommand
  dsimp only
  split_ifs
  · exact .say s _ _ _
  · rw [hnone]
    exact hrests.trans (.say _ _ _ _)

theorem disconnectCommand_eq
    (h : Dead s) :
    disconnectCommand P E s = s.uiPrintError "Aktif peer yok" [] := by
  unfold disconnectCommand
  cases s.activePeer with
  | none =>
      rfl
  | some i =>
      exact if_pos (.inr (h.slot i).state)

theorem commandLine_rests
    (h : Dead s) (line : Bytes) :
    Rests s (commandLine P E line s) ∧ ∀ P', commandLine P' E line s = commandLine P E line s := by
  have hcmd : ∀ P', commandLine P' E line s = commandLine P E line s := by
    intro P'
    simp only [commandLine, fileCommand, h.sendablePeer_eq, h.disconnectCommand_eq]
    rw [(h.msgCommand_rests (line.drop 5)).2 P',
      (h.connectCommand_rests (skipBlanks (line.drop 9))).2 P']
  refine ⟨?_, hcmd⟩
  have hsay : ∀ kind text args, Rests s (s.say kind text args) := Rests.say s
  unfold commandLine
  rw [h.sendablePeer_eq]
  refine .ite (fun _ => hsay _ _ _) (fun _ => ?_)
  refine .ite (fun _ => ?_) (fun _ => ?_)
  · exact ⟨rfl, rfl, rfl, rfl, rfl, rfl, rfl, rfl, [], (List.append_nil _).symm, by simp⟩
  refine .ite (fun _ => hsay _ _ _) (fun _ => ?_)
  refine .ite (fun _ => hsay _ _ _) (fun _ => ?_)
  refine .ite (fun _ => h.addCommand_rests _) (fun _ => ?_)
  refine .ite (fun _ => (h.msgCommand_rests _).1) (fun _ => ?_)
  refine .ite (fun _ => (h.connectCommand_rests _).1) (fun _ => ?_)
  refine .ite (fun _ => ?_) (fun _ => ?_)
  · rw [fileCommand, h.sendablePeer_eq]
    exact hsay _ _ _
  refine .ite (fun _ => h.listCommand_rests) (fun _ => ?_)
  refine .ite (fun _ => h.switchCommand_rests _) (fun _ => ?_)
  refine .ite (fun _ => ?_) (fun _ => ?_)
  · rw [h.disconnectCommand_eq]
    exact hsay _ _ _
  refine .ite (fun _ => hsay _ _ _) (fun _ => ?_)
  exact .ite (fun _ => hsay _ _ _) (fun _ => hsay _ _ _)

theorem processLine_rests
    (h : Dead s) (line : Bytes) :
    Rests s (processLine P E line s) ∧ ∀ P', processLine P' E line s = processLine P E line s := by
  simp only [processLine, h.pendingSlots_eq, messageLine, h.sendablePeer_eq, ne_eq,
    not_true_eq_false, false_and, if_false]
  constructor
  · split_ifs
    · exact (h.commandLine_rests line).1
    · exact .say s _ _ _
  · intro P'
    rw [(h.commandLine_rests line).2 P']

/-- The step lemma: a dead application rests, whatever happens, and needs no primitive for it. -/
theorem appStep_rests
    (h : Dead s) (ev : AppEvent) :
    Rests s (appStep P E s ev) ∧ ∀ P', appStep P' E s ev = appStep P E s ev := by
  cases ev with
  | timeouts =>
      have hself : ∀ P', forSlots (sweepSlot P' E) s = s := fun P' =>
        forSlots_self fun i => sweepSlot_unused (h.slot i)
      simp only [appStep, hself]
      exact ⟨.refl s, fun P' => trivial⟩
  | torCheck =>
      simp only [appStep, h.torCheck_eq]
      refine ⟨⟨rfl, ?_⟩, fun P' => trivial⟩
      unfold torDead
      dsimp only
      split_ifs <;>
        exact ⟨rfl, rfl, rfl, rfl, rfl, rfl, rfl, [], (List.append_nil _).symm, by simp⟩
  | drain =>
      have hself : ∀ P', forSlots (drainSlot P' E) s = s := fun P' =>
        forSlots_self fun i => drainSlot_unused (h.slot i)
      simp only [appStep, hself]
      exact ⟨.refl s, fun P' => trivial⟩
  | line text =>
      exact h.processLine_rests (cstr text)
  | accept =>
      exact h.acceptPeer_rests
  | peer fd out inp =>
      simp only [appStep, h.peerReady_eq]
      exact ⟨.refl s, fun P' => trivial⟩

/-- The run lemma. -/
theorem appRun_rests
    (h : Dead s) (evs : List AppEvent) :
    Rests s (appRun P E s evs) ∧ ∀ P', appRun P' E s evs = appRun P E s evs := by
  induction evs generalizing s with
  | nil =>
      refine ⟨.refl s, fun P' => ?_⟩
      rw [appRun_nil, appRun_nil]
  | cons ev evs ih =>
      obtain ⟨hstep, heq⟩ := h.appStep_rests (P := P) (E := E) ev
      obtain ⟨hrun, hrest⟩ := ih (hstep.dead h)
      constructor
      · rw [appRun_cons]
        exact hstep.trans hrun
      · intro P'
        rw [appRun_cons, appRun_cons, heq P']
        exact hrest P'

end Dead

/-- Effects that reach neither a peer nor the database. -/
inductive Farewell : Effect → Prop
  | teardown (i : Slot) : Farewell (.teardown i)
  | fileUnlink (i : Slot) (name : Bytes) : Farewell (.fileUnlink i name)
  | lookup (onion : Bytes) : Farewell (.dbGetContact onion none)

theorem tornDown_unused
    {i : Slot} {v : View} (hfd : 0 ≤ v.ps.fd) :
    Unused (tornDown i v).ps := by
  constructor
  case fd =>
    simp [tornDown, actionCleanup, cleanedSlot, hfd]
  all_goals rfl

theorem torDiedSlot_unused
    {i : Slot} {v : View} (hok : (life v).Ok) :
    Unused (torDiedSlot P E i v).ps := by
  by_cases hst : v.ps.state = .idle
  · have hslot := slotOk_idle hok hst
    obtain ⟨hhs, hses, -, honion, htarget, -⟩ := hslot.idle hst
    have hfd := hslot.idle_iff.mp hst
    rw [torDiedSlot, if_neg (by simp [hst, hfd])]
    exact ⟨hst, hfd, hhs, hses, honion, htarget⟩
  · have hfd : 0 ≤ v.ps.fd := hok.1.fd_nonneg hst
    have htorn : smDispatch P E i .torDied v = (.ok (), tornDown i v) := by
      cases hs : v.ps.state <;> exact smDispatch_torn (by rw [hs]; rfl) rfl
    rw [torDiedSlot, if_pos (.inl hfd), htorn]
    exact tornDown_unused hfd

theorem torDiedSlot_log
    {i : Slot} {v : View} :
    ∃ es, (torDiedSlot P E i v).sh.log = v.sh.log ++ es ∧ ∀ e ∈ es, Farewell e := by
  unfold torDiedSlot
  split_ifs
  · have htorn : smDispatch P E i .torDied v = (.ok (), tornDown i v) := by
      cases hs : v.ps.state <;> exact smDispatch_torn (by rw [hs]; rfl) rfl
    rw [htorn]
    refine ⟨unlinkPartial i v ++ [.teardown i], by simp [tornDown, actionCleanup], ?_⟩
    intro e he
    rcases List.mem_append.mp he with he | he
    · unfold unlinkPartial at he
      split_ifs at he
      · rw [List.mem_singleton.mp he]
        exact .fileUnlink _ _
      · cases he
    · rw [List.mem_singleton.mp he]
      exact .teardown i
  · exact ⟨[], by simp, by simp⟩

/-- Every slot that the loop has visited is unused, and stays so. -/
theorem foldSlots_unused
    (l : List Slot) (hok : (world s).Ok) (i : Slot) (h : i ∈ l ∨ Unused (s.peers i)) :
    Unused ((l.foldl (fun t j => t.onSlot j (torDiedSlot P E j)) s).peers i) := by
  induction l generalizing s with
  | nil =>
      simpa using h
  | cons j l ih =>
      have hview : (life (s.view j)).Ok := by
        rw [← world_view]
        exact hok j
      have hmoves : WorldMoves (world s) (world (s.onSlot j (torDiedSlot P E j))) :=
        onSlot_moves (torDiedSlot_moves hview)
      refine ih (hmoves.ok hok) ?_
      by_cases hi : i = j
      · subst hi
        right
        simpa [AppState.onSlot, AppState.put] using torDiedSlot_unused (P := P) (E := E) hview
      · have hsame : (s.onSlot j (torDiedSlot P E j)).peers i = s.peers i := by
          simp [AppState.onSlot, AppState.put, hi]
        rw [hsame]
        simpa [hi] using h

theorem foldSlots_log
    (l : List Slot) :
    ∃ es, (l.foldl (fun t j => t.onSlot j (torDiedSlot P E j)) s).sh.log = s.sh.log ++ es ∧
      ∀ e ∈ es, Farewell e := by
  induction l generalizing s with
  | nil =>
      exact ⟨[], by simp, by simp⟩
  | cons j l ih =>
      obtain ⟨es, hlog, hes⟩ := torDiedSlot_log (P := P) (E := E) (i := j) (v := s.view j)
      obtain ⟨es', hlog', hes'⟩ := ih (s := s.onSlot j (torDiedSlot P E j))
      refine ⟨es ++ es', ?_, ?_⟩
      · rw [List.foldl_cons, hlog', ← List.append_assoc]
        exact congrArg (· ++ es') hlog
      · intro e he
        rcases List.mem_append.mp he with he | he
        · exact hes e he
        · exact hes' e he

/-- The check that finds Tor dead leaves a dead application behind. -/
theorem TorDies.torCheck
    (hok : (world s).Ok) (h : TorDies E s) :
    Dead (torCheck P E s) ∧
      ∃ es, (torCheck P E s).sh.log = s.sh.log ++ es ∧ ∀ e ∈ es, Farewell e := by
  have hlook : (torDead E s.sh).2.torPid = s.sh.torPid ∧ (torDead E s.sh).2.log = s.sh.log ∧
      QuietShared s.sh (torDead E s.sh).2 := by
    unfold torDead
    dsimp only
    split_ifs <;> exact ⟨rfl, rfl, rfl, rfl, rfl, rfl, rfl⟩
  obtain ⟨hpid, hlog, hquiet⟩ := hlook
  have hok1 : (world { s with sh := (torDead E s.sh).2 }).Ok := by
    rw [world_shared hquiet]
    exact hok
  have hcond : (torDead E s.sh).1 = true ∧ (torDead E s.sh).2.torPid > 0 :=
    ⟨h.1, hpid ▸ h.2⟩
  unfold App.torCheck
  dsimp only
  rw [if_pos hcond]
  constructor
  · constructor
    · intro i
      exact foldSlots_unused slots hok1 i (.inl (List.mem_finRange i))
    · rfl
    · rfl
    · rfl
    · rfl
    · intro hghost
      have hghost' : (forSlots (torDiedSlot P E)
          { s with sh := (torDead E s.sh).2 }).sh.ghostMode = false := hghost
      show (torForget _).dbOpen = false
      rw [torForget, hghost']
      rfl
  · obtain ⟨es, hes⟩ := foldSlots_log (P := P) (E := E)
      (s := { s with sh := (torDead E s.sh).2 }) slots
    rw [← hlog]
    exact ⟨es, hes⟩

end Steps

/-- What holds in `t`, which the loop has reached after `s`, where Tor has died. -/
structure FailedClosed (P : Primitives) (E : Env) (s t : AppState) : Prop where
  idle : ∀ i, (t.peers i).state = .idle ∧ (t.peers i).hs = none ∧ (t.peers i).session = none
  silent : ∃ es, t.sh.log = s.sh.log ++ es ∧ ∀ e ∈ es, Farewell e
  noHandshake : ∀ initiator,
    handshakeInit P initiator t.sh.myStaticPriv t.sh.myStaticPub = .error .proto
  noClaim : hsBuildClaimPayload P t.sh = .error .state
  noFault : t.sh.fault = false
  dbClosed : t.sh.ghostMode = false → t.sh.dbOpen = false
  noContact : t.sh.ghostMode = false → ∀ onion, (dbGetContact E onion t.sh).1 = .error .state
  noNewContact : t.sh.ghostMode = false → ∀ onion name key,
    (dbAddContact E onion name key t.sh).1 = .error .state
  noList : t.sh.ghostMode = false → (dbListContacts E t.sh).1 = .error .state
  noQueue : t.sh.ghostMode = false → ∀ onion text,
    (dbQueueMessage E onion text t.sh).1 = .error .state
  noRollback : t.sh.ghostMode = false → ∀ onion count,
    dbQueueRollbackLast onion count t.sh = t.sh
  noFlush : t.sh.ghostMode = false → ∀ i onion, dbProcessQueue P E i onion (t.view i) = t.view i

theorem Dead.failedClosed
    {P : Primitives} {E : Env} {s t : AppState} (h : Dead t)
    (hlog : ∃ es, t.sh.log = s.sh.log ++ es ∧ ∀ e ∈ es, Farewell e)
    (hfault : t.sh.fault = false) :
    FailedClosed P E s t := by
  constructor
  · intro i
    exact ⟨(h.slot i).state, (h.slot i).hs, (h.slot i).session⟩
  · exact hlog
  · intro initiator
    rw [h.myStaticPriv]
    rfl
  · rw [hsBuildClaimPayload, h.myOnionSeed]
  · exact hfault
  · exact h.db
  · intro hghost onion
    simp [dbGetContact, h.db hghost]
  · intro hghost onion name key
    simp [dbAddContact, h.db hghost]
  · intro hghost
    simp [dbListContacts, h.db hghost]
  · intro hghost onion text
    simp [dbQueueMessage, h.db hghost]
  · intro hghost onion count
    simp [dbQueueRollbackLast, h.db hghost]
  · intro hghost i onion
    simp [dbProcessQueue, AppState.view, h.db hghost]

/--
Whenever the loop finds Tor dead, everything is closed right after that and at every later point
of the loop; and the rest of the run does not depend on the cryptographic primitives, so no key
is used any more.
-/
theorem tor_death_fails_closed
    (P : Primitives) (E : Env) (c : Config) (evs later : List AppEvent)
    (hdies : TorDies E (appRun P E (initialState c) evs)) :
    FailedClosed P E (appRun P E (initialState c) evs)
        (appRun P E (torCheck P E (appRun P E (initialState c) evs)) later) ∧
      ∀ P', appRun P' E (torCheck P E (appRun P E (initialState c) evs)) later =
        appRun P E (torCheck P E (appRun P E (initialState c) evs)) later := by
  have hok : (world (appRun P E (initialState c) evs)).Ok := appRun_ok evs (initialState_ok c)
  generalize appRun P E (initialState c) evs = s at hdies hok ⊢
  obtain ⟨hdead, es, hlog, hes⟩ := hdies.torCheck (P := P) hok
  obtain ⟨hrests, hprim⟩ := hdead.appRun_rests (P := P) (E := E) later
  obtain ⟨es', hlog', hes'⟩ := hrests.shared.log
  have hokt : (world (appRun P E (torCheck P E s) later)).Ok :=
    appRun_ok later ((torCheck_moves hok).ok hok)
  refine ⟨(hrests.dead hdead).failedClosed ⟨es ++ es', ?_, ?_⟩ (hokt 0).2, hprim⟩
  · rw [hlog', hlog, List.append_assoc]
  · intro e he
    rcases List.mem_append.mp he with he | he
    · exact hes e he
    · obtain ⟨onion, rfl⟩ := hes' e he
      exact .lookup onion

/-- Callers and onions can be reached, and Tor dies at the second event. -/
def dyingEnv : Env :=
  { sampleEnv with
    accept := fun _ => some 5
    socks5Connect := fun _ => some 6
    torSignal := fun tick => 3 ≤ tick }

/-- A caller is in its handshake when Tor dies; the user and another caller try again. -/
theorem tor_death_fails_closed_handshake :
    TorDies dyingEnv (appRun samplePrimitives dyingEnv (initialState sampleConfig) [.accept]) ∧
      FailedClosed samplePrimitives dyingEnv
        (appRun samplePrimitives dyingEnv (initialState sampleConfig) [.accept])
        (appRun samplePrimitives dyingEnv
          (torCheck samplePrimitives dyingEnv
            (appRun samplePrimitives dyingEnv (initialState sampleConfig) [.accept]))
          [.line (cmdConnect ++ sampleOnion 0x62), .accept,
            .line (cmdMsg ++ sampleOnion 0x62 ++ [0x20, 0x68])]) := by
  have hdies : TorDies dyingEnv
      (appRun samplePrimitives dyingEnv (initialState sampleConfig) [.accept]) := by
    constructor <;> decide +kernel
  exact ⟨hdies, (tor_death_fails_closed samplePrimitives dyingEnv sampleConfig [.accept] _ hdies).1⟩

end App
end Noxtor
