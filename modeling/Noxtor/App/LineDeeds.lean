import Noxtor.App.EventDeeds

/-!
# Deeds of the user

A line of the user is a sequence of deeds, and so is every part of the event loop.
`cmdOf` says what a part of the loop is about, as far as the deeds depend on it; an answer to
a TOFU prompt is about the slot, the address and the key that are pending.
-/

namespace Noxtor
namespace App

open ByteString Noise

/-- The contact that a line of `/add` asks for, if it is well formed. -/
def addRequest (args : Bytes) : Option (Bytes × Bytes) :=
  let (onion, rest) := nextWord (skipBlanks args)
  let name := skipBlanks rest
  if onion.length ≠ noxOnionLen ∨ rest = [] ∨ validateOnionInput onion = false ∨ name = [] ∨
      name.length > noxContactNameLen ∨ name.any (fun c => c = 0x0a || c = 0x0d || c = 0x1b) then
    none
  else some (onion, name)

/-- What a line is about. -/
def lineCmd (s : AppState) (line : Bytes) : Cmd :=
  if pendingSlots s ≠ [] ∧ (isYes line ∨ isNo line) then
    match pendingSlots s with
    | [i] =>
        if isYes line then
          .accept i (s.peers i).tofuOnion (s.peers i).tofuName (s.peers i).tofuNewKey
        else .other
    | _ => .other
  else if slashCount line = 1 ∧ line.take 5 = cmdAdd then
    match addRequest (line.drop 5) with
    | some (onion, name) => .add onion name
    | none => .other
  else if slashCount line = 1 ∧ line.take 9 = cmdConnect then .dial
  else .other

/-- What a part of the loop is about. -/
def cmdOf (s : AppState) : AppEvent → Cmd
  | .line text => lineCmd s (cstr text)
  | .accept => .inbound
  | .peer _ _ _ => .read
  | _ => .other

section Answers

variable {P : Primitives} {E : Env} {cmd : Cmd} {i : Slot} {v : View}

/-- `db_add_contact` writes its row, or changes nothing that counts. -/
theorem dbAddContact_cases
    (onion name : Bytes) (key : Key) (sh : Shared) :
    MinorShared sh (dbAddContact E onion name key sh).2 ∨
      dbAddContact E onion name key sh = (.ok (), { sh with
        tick := sh.tick + 1
        log := sh.log ++ [.dbAddContact onion name key] }) := by
  unfold dbAddContact
  split
  · exact Or.inl (.of_eq rfl rfl)
  split
  · exact Or.inl (.of_eq rfl rfl)
  cases E.dbAddContact sh.tick with
  | error err => exact Or.inl (.of_eq rfl rfl)
  | ok u => exact Or.inr rfl

/-- The contact is stored before the session is split. -/
theorem tofuSaveContact_deeds
    (hst : v.ps.state = .tofuPending)
    (hcmd : cmd = .accept i v.ps.tofuOnion v.ps.tofuName v.ps.tofuNewKey) :
    Deeds P E cmd i v (tofuSaveContact E v) := by
  have h := dbAddContact_cases (E := E) v.ps.tofuOnion v.ps.tofuName v.ps.tofuNewKey v.sh
  unfold tofuSaveContact
  split
  · exact Deeds.refl v
  generalize dbAddContact E v.ps.tofuOnion v.ps.tofuName v.ps.tofuNewKey v.sh = r at h ⊢
  rcases h with h | rfl
  · obtain ⟨_ | _, sh⟩ := r
    · exact Deeds.of_minor (h.view.thenError _ _)
    · exact Deeds.of_minor h.view
  · exact Deeds.before (.saved v.ps.tofuOnion v.ps.tofuName v.ps.tofuNewKey hcmd hst)
      (Minor.tickOn _)

theorem minor_tofuDisarm
    (v : View) :
    Minor v (tofuDisarm v) :=
  Minor.setSh v rfl rfl

theorem minor_tofuRearm
    (v : View) :
    Minor v (tofuRearm i v) := by
  unfold tofuRearm
  apply Minor.thenError
  refine ⟨rfl, rfl, [.arm .answer v.ps.tofuEpoch v.ps.tofuNewKey,
    .showFp i (hex v.ps.tofuNewKey.toList)], rfl, ?_⟩
  simp [Effect.isMinor]

/-- The session that the user has accepted comes up. -/
theorem minor_tofuSessionUp
    (session : NoiseSession) (v : View) :
    Minor (acceptedUp i session v)
      ((tofuSessionUp E i session v).setPs fun ps => { ps with state := .active }) := by
  refine Minor.of_eq ?_ ?_ ?_
  · simp [acceptedUp, tofuSessionUp, PeerSession.core]
  · simp [acceptedUp, tofuSessionUp, Shared.core, View.uiPrintSystem, View.say]
  · simp [acceptedUp, tofuSessionUp]

/-- `EV_TOFU_ACCEPTED` of an armed slot. -/
theorem tofuAccepted_deeds
    (hok : (life v).Ok) (hst : v.ps.state = .tofuPending) (harm : (life v).Armed)
    (hcmd : cmd = .accept i v.ps.tofuOnion v.ps.tofuName v.ps.tofuNewKey) :
    Deeds P E cmd i v (smDispatch P E i .tofuAccepted v).2 := by
  obtain ⟨hs, hhs, -, hkey⟩ := life_pending hok hst
  have hsess : v.ps.session = none := by
    have hslot := hok.1
    simp only [SlotLife.Ok, life, slotLife, hst] at hslot
    simpa using hslot.2.2.1
  have hfind : findTransition v.ps.state .tofuAccepted =
      some ⟨.tofuPending, .tofuAccepted, .active, .tofuAccept⟩ := by
    rw [hst]
    rfl
  have harm' : ¬ (v.ps.tofuEpoch ≠ v.sh.tofuPromptEpoch ∨
      v.ps.tofuNewKey ≠ v.sh.tofuPromptFp) := by
    rw [not_or, not_not, not_not]
    exact harm
  have hsave : Deeds P E cmd i v (tofuSaveContact E v) := tofuSaveContact_deeds hst hcmd
  have hps : (tofuSaveContact E v).ps = v.ps := tofuSaveContact_ps v
  rw [smDispatch, smDispatchDepth, hfind]
  simp only [runAction, actionTofuAccept, if_neg harm', hhs]
  generalize tofuSaveContact E v = v1 at hsave hps ⊢
  have hst1 : v1.ps.state = .tofuPending := by
    rw [hps]
    exact hst
  have hfail : ∀ u : View, Minor v1 u → u.ps.state = .tofuPending →
      Deeds P E cmd i v (smDispatchDepth P E i 1 .peerDisconnected u).2 := by
    intro u hu hstu
    rw [nested_disconnect hstu]
    exact hsave.trans (Deeds.after hu (.torn (by rw [hstu]; decide)))
  unfold sodiumMalloc
  cases E.malloc v1.sh.tick with
  | false =>
      exact hfail _ ((Minor.tickOn v1).thenError _ _) hst1
  | true =>
      dsimp only
      have h2 := Minor.tickOn v1
      have hps2 : v1.tickOn.ps = v.ps := hps
      generalize v1.tickOn = v2 at h2 hps2 ⊢
      cases hsplit : handshakeSplit P (E.hkdfAlloc v2.sh.tick) hs with
      | error err hs' =>
          dsimp only
          have hcore : ({ v2.tickOn.ps with hs := some hs', session := none } : PeerSession).core =
              v2.tickOn.ps.core := by
            have h : v2.ps.session = none := by
              rw [hps2]
              exact hsess
            simp [PeerSession.core, h]
          refine hfail _ (((h2.thenTick).trans (Minor.setPs _ hcore)).thenError _ _) ?_
          show v2.ps.state = _
          rw [hps2]
          exact hst
      | ok session hs' =>
          dsimp only
          have hrem : session.remoteStatic = v2.tickOn.ps.tofuNewKey := by
            rw [handshakeSplit_remote hsplit, View.tickOn_ps, hps2]
            exact hkey
          refine hsave.trans ((Deeds.of_minor h2.thenTick).trans (Deeds.before
            (.accepted v.ps.tofuOnion v.ps.tofuName v.ps.tofuNewKey session hcmd ?_ ?_ hrem)
            (minor_tofuSessionUp session v2.tickOn)))
          · rw [View.tickOn_ps, hps2]
            exact hst
          · rw [View.tickOn_ps, hps2]

theorem tofuAnswerYes_deeds
    (hok : (life v).Ok) (hst : v.ps.state = .tofuPending)
    (hcmd : cmd = .accept i v.ps.tofuOnion v.ps.tofuName v.ps.tofuNewKey) :
    Deeds P E cmd i v (tofuAnswerYes P E i v) := by
  unfold tofuAnswerYes
  split
  · exact Deeds.of_minor (minor_tofuRearm v)
  rename_i harm
  rw [not_or, not_not, not_not] at harm
  have h : Deeds P E cmd i v (smDispatch P E i .tofuAccepted v).2 :=
    tofuAccepted_deeds hok hst harm hcmd
  generalize smDispatch P E i .tofuAccepted v = r at h ⊢
  obtain ⟨_ | _, v1⟩ := r
  · exact (h.trans (Deeds.of_minor (minor_tofuDisarm v1))).trans (peerDisconnected_deeds _)
  · exact h.trans (Deeds.of_minor (minor_tofuDisarm v1))

theorem tofuAnswerNo_deeds
    (hst : v.ps.state = .tofuPending) :
    Deeds P E cmd i v (tofuAnswerNo P E i v) := by
  unfold tofuAnswerNo
  generalize hu : (tofuDisarm v).uiPrintSystem "[*] Bağlantı reddedildi." [] = u
  have hstu : u.ps.state = .tofuPending := by
    rw [← hu]
    exact hst
  have hminor : Minor v u := by
    rw [← hu]
    exact (minor_tofuDisarm v).thenSystem _ _
  rw [smDispatch_torn (t := ⟨.tofuPending, .tofuRejected, .idle, .cleanup⟩) (by rw [hstu]; rfl) rfl]
  exact Deeds.after hminor (.torn (by rw [hstu]; decide))

end Answers

section Lines

variable {P : Primitives} {E : Env} {cmd : Cmd} {s : AppState}

theorem findPeerByNameOrOnion_deeds
    (s : AppState) (arg : Bytes) :
    AppDeeds P E cmd s (findPeerByNameOrOnion E s arg).2 := by
  unfold findPeerByNameOrOnion
  dsimp only
  split
  · exact AppDeeds.refl s
  split
  · exact AppDeeds.refl s
  have h : AppDeeds P E cmd s { s with sh := (dbGetContact E arg s.sh).2 } :=
    AppDeeds.of_shared_deeds 0 (Deeds.one (.looked arg))
  generalize dbGetContact E arg s.sh = r at h ⊢
  obtain ⟨_ | _, sh⟩ := r
  · exact h
  · exact h

theorem sendAndReport_deeds
    (i : Slot) (msg : Bytes) (s : AppState) :
    AppDeeds P E cmd s (sendAndReport P E i msg s) := by
  unfold sendAndReport
  apply AppDeeds.onSlot
  have h : Deeds P E cmd i (s.view i) (sendSegmentedMessageTo P E i msg (s.view i)).2 :=
    sendSegmentedMessageTo_deeds msg (s.view i)
  generalize sendSegmentedMessageTo P E i msg (s.view i) = r at h ⊢
  obtain ⟨_ | _, v⟩ := r
  · exact h.trans (Deeds.of_minor (Minor.say _ _ _ v))
  · exact h.trans (Deeds.of_minor (Minor.say _ _ _ v))

theorem connectCommand_deeds
    (target : Bytes) (hok : (world s).Ok) :
    AppDeeds P E .dial s (connectCommand P E target s) := by
  unfold connectCommand
  split
  · exact AppDeeds.say _ _ _ _
  split
  · exact AppDeeds.say _ _ _ _
  cases hfree : freeSlot s with
  | none =>
      exact AppDeeds.say _ _ _ _
  | some i =>
      dsimp only
      split
      · exact AppDeeds.say _ _ _ _
      have hq : QuietShared s.sh (outboundWindow (E.clock s.sh.tick)
          { s.sh with tick := s.sh.tick + 1 }) := by
        unfold outboundWindow
        split <;> exact ⟨rfl, rfl, rfl, rfl, rfl⟩
      have hm : MinorShared s.sh (outboundWindow (E.clock s.sh.tick)
          { s.sh with tick := s.sh.tick + 1 }) := by
        unfold outboundWindow
        split <;> exact .of_eq rfl rfl
      generalize outboundWindow (E.clock s.sh.tick) { s.sh with tick := s.sh.tick + 1 } = sh1
        at hq hm ⊢
      split
      · exact (AppDeeds.of_shared hm).thenError _ _
      have hq2 : QuietShared s.sh
          { sh1 with hsAttemptCount := sh1.hsAttemptCount + 1, tick := sh1.tick + 1 } :=
        hq.trans ⟨rfl, rfl, rfl, rfl, rfl⟩
      have hm2 : MinorShared s.sh
          { sh1 with hsAttemptCount := sh1.hsAttemptCount + 1, tick := sh1.tick + 1 } :=
        hm.trans (.of_eq rfl rfl)
      generalize ({ sh1 with hsAttemptCount := sh1.hsAttemptCount + 1, tick := sh1.tick + 1 } : Shared)
        = sh2 at hq2 hm2 ⊢
      have h2 : AppDeeds P E .dial s { s with sh := sh2 } := AppDeeds.of_shared hm2
      have hok2 : (world { s with sh := sh2 }).Ok := by
        rw [world_shared hq2]
        exact hok
      cases E.socks5Connect sh1.tick with
      | none =>
          exact h2.thenError _ _
      | some peerFd =>
          exact h2.trans (AppDeeds.onSlot
            (dialSlot_deeds target peerFd (hok2 i) (freeSlot_idle hfree)))

/-- A well-formed `/add` writes the row with the zero key. -/
theorem addCommand_deeds
    (args : Bytes) (hcmd : ∀ onion name, addRequest args = some (onion, name) →
      cmd = .add onion name) :
    AppDeeds P E cmd s (addCommand E args s) := by
  unfold addRequest at hcmd
  unfold addCommand
  split
  · exact AppDeeds.say _ _ _ _
  generalize nextWord (skipBlanks args) = w at hcmd ⊢
  obtain ⟨onion, rest⟩ := w
  dsimp only at hcmd ⊢
  split
  · exact AppDeeds.say _ _ _ _
  rename_i h1
  split
  · exact AppDeeds.say _ _ _ _
  rename_i h2
  split
  · exact AppDeeds.say _ _ _ _
  rename_i h3
  split
  · exact AppDeeds.say _ _ _ _
  rename_i h4
  split
  · exact AppDeeds.say _ _ _ _
  rename_i h5
  have hadd : cmd = .add onion (skipBlanks rest) := by
    apply hcmd
    rw [if_neg]
    rintro (h | h | h | h | h | h)
    · exact h1 (Or.inl h)
    · exact h1 (Or.inr h)
    · exact h2 h
    · exact h3 h
    · exact h4 h
    · exact h5 h
  have h := dbAddContact_cases (E := E) onion (skipBlanks rest) (Block.zero 32) s.sh
  generalize dbAddContact E onion (skipBlanks rest) (Block.zero 32) s.sh = r at h ⊢
  rcases h with h | rfl
  · obtain ⟨_ | _, sh⟩ := r
    · exact (AppDeeds.of_shared h).thenError _ _
    · exact (AppDeeds.of_shared h).thenSystem _ _
  · apply AppDeeds.thenSystem
    exact AppDeeds.of_shared_deeds 0 (Deeds.before (.added onion (skipBlanks rest) hadd)
      (Minor.tickOn _))

theorem queueLoop_minor
    (onion msg : Bytes) (fuel offset queued : Nat) (sh : Shared) :
    MinorShared sh (queueLoop E onion msg fuel offset queued sh).2 := by
  induction fuel generalizing offset queued sh with
  | zero =>
      exact .of_eq rfl rfl
  | succ fuel ih =>
      unfold queueLoop
      split
      swap
      · exact .of_eq rfl rfl
      dsimp only
      generalize (msg.drop offset).take (noxNextChunkSize msg offset msg.length) = chunk
      have hq : MinorShared sh (dbQueueMessage E onion chunk sh).2 := by
        unfold dbQueueMessage
        split
        · exact .of_eq rfl rfl
        split
        · exact .of_eq rfl rfl
        cases E.dbQueueMessage sh.tick with
        | error err => exact .of_eq rfl rfl
        | ok u => exact ⟨rfl, MinorLog.snoc _ rfl⟩
      generalize dbQueueMessage E onion chunk sh = r at hq ⊢
      obtain ⟨_ | _, sh1⟩ := r
      · refine hq.trans ?_
        dsimp only
        split
        · unfold dbQueueRollbackLast
          split
          · exact .of_eq rfl rfl
          · exact ⟨rfl, MinorLog.snoc _ rfl⟩
        · exact .of_eq rfl rfl
      · exact hq.trans (ih _ _ sh1)

theorem queueSegmentedMessage_minor
    (onion msg : Bytes) (sh : Shared) :
    MinorShared sh (queueSegmentedMessage E onion msg sh).2 := by
  unfold queueSegmentedMessage
  split
  · exact .of_eq rfl rfl
  · exact MinorShared.trans (.of_eq rfl rfl) (queueLoop_minor onion msg _ _ _ _)

theorem msgCommand_deeds
    (args : Bytes) :
    AppDeeds P E cmd s (msgCommand P E args s) := by
  unfold msgCommand
  dsimp only
  generalize nextWord (skipBlanks args) = w
  obtain ⟨onion, rest⟩ := w
  dsimp only
  split
  · exact AppDeeds.say _ _ _ _
  split
  · exact AppDeeds.say _ _ _ _
  split
  · exact AppDeeds.say _ _ _ _
  have h1 : AppDeeds P E cmd s (findPeerByNameOrOnion E s onion).2 :=
    findPeerByNameOrOnion_deeds s onion
  generalize findPeerByNameOrOnion E s onion = r at h1 ⊢
  obtain ⟨found, s1⟩ := r
  dsimp only at h1 ⊢
  split
  · exact h1.trans (sendAndReport_deeds _ _ s1)
  split
  · exact h1.thenError _ _
  have hq := queueSegmentedMessage_minor (E := E) onion (skipBlanks rest) s1.sh
  generalize queueSegmentedMessage E onion (skipBlanks rest) s1.sh = q at hq ⊢
  obtain ⟨_ | _, sh⟩ := q
  · exact (h1.trans (AppDeeds.of_shared hq)).thenError _ _
  · exact (h1.trans (AppDeeds.of_shared hq)).thenSystem _ _

theorem fileCommand_deeds
    (args : Bytes) :
    AppDeeds P E cmd s (fileCommand P E args s) := by
  unfold fileCommand
  cases sendablePeer s with
  | none => exact AppDeeds.say _ _ _ _
  | some i => exact AppDeeds.onSlot (sends_fileTransferStart _ _).deeds

theorem foldSystem_deeds
    {α : Type} (text : String) (f : α → List Bytes) (rows : List α) (s : AppState) :
    AppDeeds P E cmd s (rows.foldl (fun t row => t.uiPrintSystem text (f row)) s) := by
  induction rows generalizing s with
  | nil =>
      exact AppDeeds.refl s
  | cons row rows ih =>
      exact (AppDeeds.say s _ _ _).trans (ih _)

theorem listCommand_deeds :
    AppDeeds P E cmd s (listCommand E s) := by
  obtain ⟨ticks, es, lines, hlist, hes, -⟩ := listCommand_eq E s
  rw [hlist]
  refine AppDeeds.of_shared ⟨rfl, es, rfl, fun e he => ?_⟩
  obtain ⟨rows, rfl⟩ := hes e he
  rfl

theorem switchCommand_deeds
    (args : Bytes) :
    AppDeeds P E .other s (switchCommand E args s) := by
  unfold switchCommand
  dsimp only
  split
  · exact AppDeeds.say _ _ _ _
  have h1 : AppDeeds P E .other s (findPeerByNameOrOnion E s (skipBlanks args)).2 :=
    findPeerByNameOrOnion_deeds s (skipBlanks args)
  generalize findPeerByNameOrOnion E s (skipBlanks args) = r at h1 ⊢
  obtain ⟨_ | i, s1⟩ := r
  · exact h1.thenError _ _
  dsimp only at h1 ⊢
  split
  · exact h1.thenError _ _
  · rename_i hact
    have hne : (s1.view i).ps.state ≠ .idle := by
      intro hst
      apply hact
      right
      right
      rw [show (s1.peers i).state = .idle from hst]
      decide
    apply AppDeeds.thenSystem
    exact h1.trans (AppDeeds.of_shared_deeds i (Deeds.one (.chosen (Or.inr rfl) hne)))

theorem disconnectCommand_deeds :
    AppDeeds P E cmd s (disconnectCommand P E s) := by
  unfold disconnectCommand
  cases s.activePeer with
  | none => exact AppDeeds.say _ _ _ _
  | some i =>
      dsimp only
      split
      · exact AppDeeds.say _ _ _ _
      · exact (AppDeeds.onSlot (peerDisconnected_deeds _)).thenSystem _ _

theorem commandLine_deeds
    (line : Bytes) (hok : (world s).Ok)
    (hadd : slashCount line < 2 → line.take 5 = cmdAdd → ∀ onion name,
      addRequest (line.drop 5) = some (onion, name) → cmd = .add onion name)
    (hdial : slashCount line < 2 → line.take 9 = cmdConnect → cmd = .dial)
    (hswitch : slashCount line < 2 → line.take 8 = cmdSwitch → cmd = .other) :
    AppDeeds P E cmd s (commandLine P E line s) := by
  have hsystem : ∀ t a, AppDeeds P E cmd s (s.uiPrintSystem t a) := by
    intro t a
    exact AppDeeds.say _ _ _ _
  have herror : ∀ t a, AppDeeds P E cmd s (s.uiPrintError t a) := by
    intro t a
    exact AppDeeds.say _ _ _ _
  unfold commandLine
  refine AppDeeds.ite (fun _ => ?_) (fun hone => ?_)
  · -- a line that begins with two slashes
    cases sendablePeer s with
    | none => exact herror _ _
    | some i => exact sendAndReport_deeds i _ s
  refine AppDeeds.ite (fun _ => AppDeeds.of_shared (.of_eq rfl rfl)) (fun _ => ?_)
  refine AppDeeds.ite (fun _ => hsystem _ _) (fun _ => ?_)
  refine AppDeeds.ite (fun _ => hsystem _ _) (fun _ => ?_)
  refine AppDeeds.ite (fun h => addCommand_deeds _ (hadd (Nat.lt_of_not_le hone) h)) (fun _ => ?_)
  refine AppDeeds.ite (fun _ => msgCommand_deeds _) (fun _ => ?_)
  refine AppDeeds.ite (fun h => ?_) (fun _ => ?_)
  · rw [hdial (Nat.lt_of_not_le hone) h]
    exact connectCommand_deeds _ hok
  refine AppDeeds.ite (fun _ => fileCommand_deeds _) (fun _ => ?_)
  refine AppDeeds.ite (fun _ => listCommand_deeds) (fun _ => ?_)
  refine AppDeeds.ite (fun h => ?_) (fun _ => ?_)
  · rw [hswitch (Nat.lt_of_not_le hone) h]
    exact switchCommand_deeds _
  refine AppDeeds.ite (fun _ => disconnectCommand_deeds) (fun _ => ?_)
  refine AppDeeds.ite (fun _ => hsystem _ _) (fun _ => ?_)
  exact AppDeeds.ite (fun _ => herror _ _) (fun _ => herror _ _)

theorem messageLine_deeds
    (line : Bytes) :
    AppDeeds P E cmd s (messageLine P E line s) := by
  unfold messageLine
  cases sendablePeer s with
  | none => exact AppDeeds.say _ _ _ _
  | some i =>
      dsimp only
      split
      · exact AppDeeds.refl s
      · exact sendAndReport_deeds i line s

theorem processLine_deeds
    (line : Bytes) (hok : (world s).Ok) :
    AppDeeds P E (lineCmd s line) s (processLine P E line s) := by
  unfold processLine
  refine AppDeeds.ite (fun hans => ?_) (fun hans => ?_)
  · unfold tofuUserResponse lineCmd
    rw [if_pos hans]
    cases hp : pendingSlots s with
    | nil =>
        exact absurd hp hans.1
    | cons i rest =>
        cases rest with
        | nil =>
            have hmem : i ∈ pendingSlots s := by
              rw [hp]
              exact List.mem_singleton_self i
            have hst : (s.peers i).state = .tofuPending := by
              simpa [pendingSlots, slots] using hmem
            apply AppDeeds.onSlot
            cases isYes line with
            | true => exact tofuAnswerYes_deeds (v := s.view i) (hok i) hst rfl
            | false => exact tofuAnswerNo_deeds (v := s.view i) hst
        | cons j rest =>
            exact (AppDeeds.say s _ _ _).trans (foldSystem_deeds _ _ _ _)
  refine AppDeeds.ite (fun _ => AppDeeds.say _ _ _ _) (fun _ => ?_)
  refine AppDeeds.ite (fun _ => AppDeeds.say _ _ _ _) (fun _ => ?_)
  refine AppDeeds.ite (fun hslash => ?_) (fun _ => messageLine_deeds line)
  unfold lineCmd
  rw [if_neg hans]
  apply commandLine_deeds line hok
  · intro hone hadd onion name hreq
    rw [if_pos ⟨by omega, hadd⟩, hreq]
  · intro hone hdial
    rw [if_neg, if_pos ⟨by omega, hdial⟩]
    rintro ⟨-, hadd⟩
    have h : (line.take 9).take 5 = cmdAdd := by
      rw [List.take_take]
      exact hadd
    rw [hdial] at h
    exact absurd h (by decide)
  · intro _ hswitch
    rw [if_neg, if_neg]
    · rintro ⟨-, hdial⟩
      have h : (line.take 9).take 8 = cmdSwitch := by
        rw [List.take_take]
        exact hswitch
      rw [hdial] at h
      exact absurd h (by decide)
    · rintro ⟨-, hadd⟩
      have h : (line.take 8).take 5 = cmdAdd := by
        rw [List.take_take]
        exact hadd
      rw [hswitch] at h
      exact absurd h (by decide)

/-- Every part of the event loop is made of deeds. -/
theorem appStep_deeds
    (ev : AppEvent) (hok : (world s).Ok) :
    AppDeeds P E (cmdOf s ev) s (appStep P E s ev) := by
  cases ev with
  | timeouts =>
      exact forSlots_deeds (fun i v hv => ⟨sweepSlot_moves hv, sweepSlot_deeds hv⟩) hok
  | torCheck =>
      exact torCheck_deeds hok
  | drain =>
      exact forSlots_deeds (fun i v hv => ⟨drainSlot_moves hv, drainSlot_deeds hv⟩) hok
  | line text =>
      exact processLine_deeds (cstr text) hok
  | accept =>
      exact acceptPeer_deeds hok
  | peer fd out inp =>
      exact peerReady_deeds fd out inp hok

end Lines

section Runs

variable {P : Primitives} {E : Env} {s : AppState}

/-- What every deed keeps, every part of the loop keeps. -/
theorem AppDeeds.keep
    {cmd : Cmd} {s' : AppState} {Inv : AppState → Prop}
    (hdeed : ∀ i t v, Inv t → Deed P E cmd i (t.view i) v → Inv (t.put i v))
    (h : AppDeeds P E cmd s s') (hinv : Inv s) :
    Inv s' := by
  induction h with
  | refl =>
      exact hinv
  | tail _ hstep ih =>
      obtain ⟨i, v, hv, rfl⟩ := hstep
      exact hdeed i _ v ih hv

/-- What every deed keeps, every run keeps. -/
theorem appRun_keep
    {I : AppState → Prop}
    (hdeed : ∀ cmd i t v, I t → Deed P E cmd i (t.view i) v → I (t.put i v))
    (evs : List AppEvent) (hok : (world s).Ok) (hinv : I s) :
    I (appRun P E s evs) := by
  induction evs generalizing s with
  | nil =>
      exact hinv
  | cons ev evs ih =>
      rw [appRun_cons]
      exact ih (appStep_ok ev hok) ((appStep_deeds ev hok).keep (hdeed _) hinv)

/-- The slot that an effect is about, for the effects that are not minor. -/
def Effect.owner : Effect → Option Slot
  | .dialled i _ => some i
  | .heard i _ => some i
  | .sent i _ => some i
  | .claim i _ _ => some i
  | .knownSession i _ _ => some i
  | .keyChanged i _ => some i
  | .newPeer i _ => some i
  | .tofuSession i _ => some i
  | .teardown i => some i
  | .queueSend i _ _ _ => some i
  | .fileCreate i _ => some i
  | .fileWrite i _ _ => some i
  | .fileUnlink i _ => some i
  | .fileDone i _ => some i
  | _ => none

/-- The rows that a part of the loop may write. -/
def Cmd.Writes (cmd : Cmd) (onion name : Bytes) (key : Key) : Prop :=
  (∃ i, cmd = .accept i onion name key) ∨ (cmd = .add onion name ∧ key = Block.zero 32)

/-- An effect on the received files by slot `i`. -/
def Effect.onFile (i : Slot) : Effect → Bool
  | .fileCreate j _ => j = i
  | .fileWrite j _ _ => j = i
  | .fileUnlink j _ => j = i
  | .fileDone j _ => j = i
  | _ => false

/-- What a deed of slot `i` may add to the log. -/
inductive Emits (cmd : Cmd) (i : Slot) (v : View) : List Effect → Prop
  | minor {es : List Effect} (h : ∀ e ∈ es, e.isMinor = true) : Emits cmd i v es
  | torn : Emits cmd i v (unlinkPartial i v ++ [.teardown i])
  | dialled (target : Bytes) : Emits cmd i v [.dialled i target]
  | heard (pl : Bytes) (rs : Key) : Emits cmd i v [.heard i (some (pl, rs))]
  | misheard : Emits cmd i v (.heard i none :: (unlinkPartial i v ++ [.teardown i]))
  | sent (bytes : Bytes) : Emits cmd i v [.sent i bytes]
  | looked (onion : Bytes) (row : Option (Bytes × Key)) :
      Emits cmd i v [.dbGetContact onion row]
  | recognised (onion name : Bytes) (key : Key) :
      Emits cmd i v [.claim i onion key, .dbGetContact onion (some (name, key))]
  | warned (onion name : Bytes) (key stored : Key) :
      Emits cmd i v [.claim i onion key, .dbGetContact onion (some (name, stored)),
        .keyChanged i onion]
  | greeted (onion : Bytes) (key : Key) (row : Option (Bytes × Key))
      (hrow : ∀ name stored, row = some (name, stored) → stored = Block.zero 32) :
      Emits cmd i v ([.claim i onion key] ++
        (if v.sh.ghostMode then [] else [.dbGetContact onion row]) ++ [.newPeer i onion])
  | known (onion : Bytes) (key : Key) : Emits cmd i v [.knownSession i onion key]
  | accepted (key : Key) : Emits cmd i v [.tofuSession i key]
  | wrote (onion name : Bytes) (key : Key) (h : cmd.Writes onion name key) :
      Emits cmd i v [.dbAddContact onion name key]
  | queued (texts : List Bytes) (text : Bytes) (hver : v.ps.peerVerified = true)
      (htaken : .dbProcessQueue v.ps.peerOnion texts ∈ v.sh.log) (hmem : text ∈ texts) :
      Emits cmd i v
        [.queueSend i v.ps.peerOnion text (v.ps.session.map NoiseSession.remoteStatic)]
  | file {es : List Effect} (h : ∀ e ∈ es, e.onFile i = true) : Emits cmd i v es

/-- A teardown deletes at most the file that is being received. -/
theorem mem_unlinkPartial
    {i : Slot} {v : View} {e : Effect} (h : e ∈ unlinkPartial i v) :
    e = .fileUnlink i v.ps.rxFile.localName := by
  unfold unlinkPartial at h
  split at h
  · exact List.mem_singleton.mp h
  · cases h

/-- A deed only adds to the log. -/
theorem Deed.emits
    {cmd : Cmd} {i : Slot} {v v' : View} (h : Deed P E cmd i v v') :
    ∃ es, v'.sh.log = v.sh.log ++ es ∧ Emits cmd i v es := by
  have hsame : ∃ es, v.sh.log = v.sh.log ++ es ∧ Emits cmd i v es :=
    ⟨[], (List.append_nil _).symm, .minor (fun _ he => absurd he List.not_mem_nil)⟩
  cases h with
  | minor hminor =>
      obtain ⟨es, hlog, hes⟩ := hminor.log
      exact ⟨es, hlog, .minor hes⟩
  | torn _ =>
      have hlog : (tornDown i v).sh.log = v.sh.log ++ unlinkPartial i v ++ [.teardown i] := rfl
      rw [List.append_assoc] at hlog
      exact ⟨_, hlog, .torn⟩
  | dialled _ target _ _ => exact ⟨_, rfl, .dialled _⟩
  | greet _ _ bytes _ => exact ⟨_, rfl, .sent bytes⟩
  | answered _ _ _ => exact hsame
  | chosen _ _ => exact hsame
  | sent bytes _ => exact ⟨_, rfl, .sent bytes⟩
  | heard pl rs _ _ => exact ⟨_, rfl, .heard pl rs⟩
  | misheard _ _ =>
      have hlog : (tornDown i (v.emit [.heard i none])).sh.log =
          v.sh.log ++ [.heard i none] ++ unlinkPartial i v ++ [.teardown i] := rfl
      rw [List.append_assoc, List.append_assoc] at hlog
      exact ⟨_, hlog, .misheard⟩
  | replied _ _ bytes _ _ => exact ⟨_, rfl, .sent bytes⟩
  | looked onion =>
      unfold dbGetContact
      split
      · exact ⟨_, rfl, .looked onion _⟩
      · exact ⟨_, rfl, .looked onion _⟩
  | recognised _ onion name key _ _ _ _ _ => exact ⟨_, rfl, .recognised onion name key⟩
  | warned _ onion name key stored _ _ _ _ _ => exact ⟨_, rfl, .warned onion name key stored⟩
  | greeted _ onion key row _ _ _ hrow => exact ⟨_, rfl, .greeted onion key row hrow⟩
  | known _ onion _ session _ _ _ _ _ _ _ _ => exact ⟨_, rfl, .known _ session.remoteStatic⟩
  | prompted _ _ _ _ _ _ _ _ _ _ => exact hsame
  | saved onion name key hcmd _ => exact ⟨_, rfl, .wrote onion name key (Or.inl ⟨i, hcmd⟩)⟩
  | accepted _ _ _ session _ _ _ _ => exact ⟨_, rfl, .accepted session.remoteStatic⟩
  | added onion name hcmd => exact ⟨_, rfl, .wrote onion name _ (Or.inr ⟨hcmd, rfl⟩)⟩
  | queued texts text hver _ htaken hmem => exact ⟨_, rfl, .queued texts text hver htaken hmem⟩
  | rxCleared _ => exact hsame
  | rxOpened _ name _ _ _ _ _ _ _ _ _ => exact ⟨_, rfl, .file (by simp [Effect.onFile])⟩
  | rxStillborn name _ _ => exact ⟨_, rfl, .file (by simp [Effect.onFile])⟩
  | rxGrown data _ _ _ => exact ⟨_, rfl, .file (by simp [Effect.onFile])⟩
  | rxCompleted data _ _ _ _ => exact ⟨_, rfl, .file (by simp [Effect.onFile])⟩
  | rxDropped es es' _ _ hes hun =>
      refine ⟨es ++ es', rfl, .file (fun e he => ?_)⟩
      obtain he | he := List.mem_append.mp he
      · obtain ⟨data, rfl⟩ := hes e he
        simp [Effect.onFile]
      · rcases hun with rfl | rfl
        · rw [mem_unlinkPartial he]
          simp [Effect.onFile]
        · rw [List.mem_singleton.mp he]
          simp [Effect.onFile]
  | forgot => exact hsame

section Emits

variable {cmd : Cmd} {i : Slot} {v : View} {es : List Effect}

theorem Effect.owner_of_minor
    {e : Effect} (h : e.isMinor = true) :
    e.owner = none := by
  cases e <;> first | rfl | cases h

theorem Effect.owner_of_onFile
    {e : Effect} (h : e.onFile i = true) :
    e.owner = some i := by
  cases e <;> simp [Effect.onFile] at h <;> simp [Effect.owner, h]

/-- A slot only has effects of its own. -/
theorem Emits.owner
    (h : Emits cmd i v es) :
    ∀ e ∈ es, e.owner = none ∨ e.owner = some i := by
  cases h with
  | minor h => exact fun e he => Or.inl (Effect.owner_of_minor (h e he))
  | torn =>
      intro e he
      obtain he | he := List.mem_append.mp he
      · rw [mem_unlinkPartial he]
        exact Or.inr rfl
      · rw [List.mem_singleton.mp he]
        exact Or.inr rfl
  | misheard =>
      intro e he
      obtain rfl | he := List.mem_cons.mp he
      · exact Or.inr rfl
      obtain he | he := List.mem_append.mp he
      · rw [mem_unlinkPartial he]
        exact Or.inr rfl
      · rw [List.mem_singleton.mp he]
        exact Or.inr rfl
  | greeted => split <;> simp [Effect.owner]
  | file h => exact fun e he => Or.inr (Effect.owner_of_onFile (h e he))
  | _ => simp [Effect.owner]

/-- The writes to the contacts are those of the command. -/
theorem Emits.writes
    (h : Emits cmd i v es) {onion name : Bytes} {key : Key}
    (hmem : .dbAddContact onion name key ∈ es) :
    cmd.Writes onion name key := by
  cases h with
  | minor h => cases h _ hmem
  | torn =>
      obtain he | he := List.mem_append.mp hmem
      · cases mem_unlinkPartial he
      · cases List.mem_singleton.mp he
  | misheard =>
      obtain he | he := List.mem_cons.mp hmem
      · cases he
      obtain he | he := List.mem_append.mp he
      · cases mem_unlinkPartial he
      · cases List.mem_singleton.mp he
  | greeted => split at hmem <;> simp at hmem
  | wrote o n k hcmd =>
      cases List.mem_singleton.mp hmem
      exact hcmd
  | file h => cases h _ hmem
  | _ => simp at hmem

end Emits

/-- Ghost mode is chosen when the program starts. -/
theorem Deed.ghost
    {cmd : Cmd} {i : Slot} {v v' : View} (h : Deed P E cmd i v v') :
    v'.sh.ghostMode = v.sh.ghostMode := by
  cases h with
  | minor hminor =>
      have hsh : v'.sh.core.ghostMode = v.sh.core.ghostMode := by
        rw [hminor.sh]
      exact hsh
  | looked onion =>
      unfold dbGetContact
      split <;> rfl
  | _ => rfl

end Runs

end App
end Noxtor
