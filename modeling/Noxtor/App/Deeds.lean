import Noxtor.App.PeerAuthentication

/-!
# What the program does to a slot

`Deed` lists everything that a part of the event loop can do to a slot and to what the
slots share, as small changes of the concrete view with the conditions under which they
are made.  What no deed names, the counters, the buffers, the handshake in progress and the
file that is being sent, may change at any time: such a change is `Minor`.

That every part of the loop is a sequence of deeds is proved in the modules that follow, once
for all the properties that are proved from it.
-/

namespace Noxtor
namespace App

open ByteString Noise

/-- What counts of the file that is being received; of no file, only the counters. -/
def FileRx.core (rx : FileRx) : FileRx :=
  if rx.active then { rx with fd := 0, filename := [], lastChunkTs := 0 }
  else { receivedBytes := rx.receivedBytes, expectedSize := rx.expectedSize }

/-- What counts of a session: whose it is. -/
def sessionCore (session : NoiseSession) : NoiseSession :=
  { session with tx := cipherInit, rx := cipherInit }

/-- A slot without what changes all the time. -/
def PeerSession.core (ps : PeerSession) : PeerSession :=
  { ps with
    session := ps.session.map sessionCore
    hs := none
    handshakeStart := 0
    txSeq := 0
    rxSeq := 0
    queueFlushed := false
    tofuStart := 0
    tofuEpoch := 0
    recv := []
    lastActive := 0
    rxFile := ps.rxFile.core
    txFile := {}
    unreadCount := 0 }

/-- The shared state without its counters, its clocks and its records. -/
def Shared.core (sh : Shared) : Shared :=
  { sh with
    running := true
    torPid := 0
    torCtrlFd := 0
    lastTorCheck := 0
    hsAttemptCount := 0
    hsWindowStart := 0
    hsInboundCount := 0
    hsInboundWindowStart := 0
    tofuEpoch := 0
    tofuPromptEpoch := 0
    tofuPromptFp := Block.zero 32
    tick := 0
    log := []
    ui := []
    fault := false }

@[simp] theorem View.tickOn_core (v : View) : v.tickOn.sh.core = v.sh.core := rfl
@[simp] theorem View.emit_core (es : List Effect) (v : View) :
    (v.emit es).sh.core = v.sh.core := rfl
@[simp] theorem View.uiPrintError_core (t : String) (a : List Bytes) (v : View) :
    (v.uiPrintError t a).sh.core = v.sh.core := rfl
@[simp] theorem View.uiPrintSystem_core (t : String) (a : List Bytes) (v : View) :
    (v.uiPrintSystem t a).sh.core = v.sh.core := rfl

/-- The effects of minor changes. -/
def Effect.isMinor : Effect → Bool
  | .dialled _ _ => false
  | .heard _ _ => false
  | .sent _ _ => false
  | .incoming _ _ => true
  | .fileRecord _ _ => true
  | .showFp _ _ => true
  | .tofuPrompt _ _ _ => true
  | .arm _ _ _ => true
  | .dbListContacts _ => true
  | .dbProcessQueue _ _ => true
  | .dbQueueMessage _ _ => true
  | .dbQueueRollback _ _ => true
  | .claim _ _ _ => false
  | .knownSession _ _ _ => false
  | .keyChanged _ _ => false
  | .newPeer _ _ => false
  | .tofuSession _ _ => false
  | .teardown _ => false
  | .dbGetContact _ _ => false
  | .dbAddContact _ _ _ => false
  | .queueSend _ _ _ _ => false
  | .fileCreate _ _ => false
  | .fileWrite _ _ _ => false
  | .fileUnlink _ _ => false
  | .fileDone _ _ => false

/-- The log has grown by effects of minor changes. -/
def MinorLog (log log' : List Effect) : Prop :=
  ∃ es, log' = log ++ es ∧ ∀ e ∈ es, e.isMinor = true

/-- A change that the deeds do not account for. -/
structure Minor (v v' : View) : Prop where
  ps : v'.ps.core = v.ps.core
  sh : v'.sh.core = v.sh.core
  log : MinorLog v.sh.log v'.sh.log

/-- Minor changes keep whether there is a session. -/
theorem live_of_core
    {ps ps' : PeerSession} (h : ps'.core = ps.core) :
    ps'.session ≠ none ↔ ps.session ≠ none := by
  have hcore : ps'.core.session = ps.core.session := by
    rw [h]
  have hmap : ∀ q : PeerSession, q.core.session = q.session.map sessionCore := fun _ => rfl
  rw [hmap, hmap] at hcore
  rw [not_iff_not, ← Option.map_eq_none_iff (f := sessionCore), hcore, Option.map_eq_none_iff]

namespace MinorLog

theorem refl (log : List Effect) : MinorLog log log :=
  ⟨[], (List.append_nil log).symm, fun _ h => absurd h List.not_mem_nil⟩

theorem snoc
    {e : Effect} (log : List Effect) (he : e.isMinor = true) :
    MinorLog log (log ++ [e]) :=
  ⟨[e], rfl, fun e' h => by rw [List.mem_singleton.mp h]; exact he⟩

theorem trans
    {l1 l2 l3 : List Effect} (h : MinorLog l1 l2) (h' : MinorLog l2 l3) :
    MinorLog l1 l3 := by
  obtain ⟨es, rfl, hes⟩ := h
  obtain ⟨es', rfl, hes'⟩ := h'
  refine ⟨es ++ es', List.append_assoc l1 es es', fun e he => ?_⟩
  obtain he | he := List.mem_append.mp he
  · exact hes e he
  · exact hes' e he

end MinorLog

namespace Minor

variable {v v' v'' : View}

theorem refl (v : View) : Minor v v :=
  ⟨rfl, rfl, MinorLog.refl _⟩

theorem trans (h : Minor v v') (h' : Minor v' v'') : Minor v v'' :=
  ⟨h'.ps.trans h.ps, h'.sh.trans h.sh, h.log.trans h'.log⟩

/-- A change without effects. -/
theorem of_eq
    (hps : v'.ps.core = v.ps.core) (hsh : v'.sh.core = v.sh.core) (hlog : v'.sh.log = v.sh.log) :
    Minor v v' :=
  ⟨hps, hsh, by rw [hlog]; exact MinorLog.refl _⟩

/-- A change of the slot. -/
theorem setPs
    {f : PeerSession → PeerSession} (v : View) (h : (f v.ps).core = v.ps.core) :
    Minor v (v.setPs f) :=
  ⟨h, rfl, MinorLog.refl _⟩

/-- A change of the shared state. -/
theorem setSh
    {f : Shared → Shared} (v : View) (h : (f v.sh).core = v.sh.core)
    (hlog : (f v.sh).log = v.sh.log) :
    Minor v (v.setSh f) :=
  ⟨rfl, h, by rw [View.setSh_sh, hlog]; exact MinorLog.refl _⟩

theorem tickOn (v : View) : Minor v v.tickOn :=
  setSh v rfl rfl

theorem say (kind : UiKind) (text : String) (args : List Bytes) (v : View) :
    Minor v (v.say kind text args) :=
  setSh v rfl rfl

theorem emit
    {e : Effect} (v : View) (he : e.isMinor = true) :
    Minor v (v.emit [e]) :=
  ⟨rfl, rfl, MinorLog.snoc _ he⟩

theorem thenTick (h : Minor v v') : Minor v v'.tickOn :=
  h.trans (tickOn v')

theorem thenError (text : String) (args : List Bytes) (h : Minor v v') :
    Minor v (v'.uiPrintError text args) :=
  h.trans (say .error text args v')

theorem thenSystem (text : String) (args : List Bytes) (h : Minor v v') :
    Minor v (v'.uiPrintSystem text args) :=
  h.trans (say .system text args v')

theorem thenEmit {e : Effect} (he : e.isMinor = true) (h : Minor v v') :
    Minor v (v'.emit [e]) :=
  h.trans (emit v' he)

end Minor

/-- What a part of the loop is about: data of a peer, a connection of either kind, the answer
of the user to a prompt, a contact to be added, or none of these. -/
inductive Cmd where
  | other
  | read
  | dial
  | inbound
  | accept (i : Slot) (onion name : Bytes) (key : Key)
  | add (onion name : Bytes)
deriving DecidableEq

/-- The record announces a file of this size and hash. -/
structure Announces (pt : Bytes) (size : Nat) (hash : Block 32) : Prop where
  length : pt.length = 305
  tag : pt.take 9 = metadataTag
  size : ofBe ((pt.drop 265).take 8) = size
  hash : Block.ofBytes 32 (pt.drop 273) = hash

/-- A file that is being received, right after it has been created. -/
def newRx (name : Bytes) (size : Nat) (hash : Block 32) : FileRx :=
  { active := true, localName := name, expectedSize := size, expectedHash := hash
    hashState := be64 size }

/-- The slot has received `data` and goes on. -/
def FileRx.grow (rx : FileRx) (data : Bytes) : FileRx :=
  { rx with
    hashState := rx.hashState ++ data
    receivedBytes := rx.receivedBytes + data.length }

/-- The slot no longer receives a file. -/
def rxOver (v : View) : View :=
  v.setPs fun ps => { ps with state := .active, rxFile := {} }

/-- The slot is connected: dialled to `target`, or accepted if there is none. -/
def connected (st : PeerState) (fd : Nat) (target : Bytes) (v : View) : View :=
  v.setPs fun ps => { ps with
    state := st, fd := fd, peerOnion := target, connectTarget := target }

/-- The slot becomes the active peer. -/
def chosen (i : Slot) (v : View) : View :=
  v.setSh fun sh => { sh with
    activePeerIdx := i.val, activePeerOnion := strCopy noxOnionLen v.ps.peerOnion }

/-- The session with a known peer. -/
def knownUp (i : Slot) (onion : Bytes) (session : NoiseSession) (v : View) : View :=
  { ps := { v.ps with
      state := .active
      session := some session
      peerVerified := true
      tofuWasZeroKey := false
      peerOnion := strCopy noxOnionLen onion }
    sh := { v.sh with
      activePeerOnion := strCopy noxOnionLen onion
      log := v.sh.log ++ [.knownSession i (strCopy noxOnionLen onion) session.remoteStatic] } }

/-- The slot waits for the answer of the user. -/
def prompted (fd : Int) (onion name : Bytes) (key : Key) (zeroKey : Bool) (v : View) : View :=
  (tofuFill fd onion name key zeroKey v).setPs fun ps => { ps with state := .tofuPending }

/-- The session that the user has accepted. -/
def acceptedUp (i : Slot) (session : NoiseSession) (v : View) : View :=
  { ps := { v.ps with
      state := .active
      session := some session
      peerVerified := false
      tofuPending := false
      peerOnion := strCopy noxOnionLen v.ps.tofuOnion
      name := strCopy noxContactNameLen v.ps.tofuName }
    sh := { v.sh with
      activePeerOnion := strCopy noxOnionLen v.ps.tofuOnion
      log := v.sh.log ++ [.tofuSession i session.remoteStatic] } }

/-- A message of the handshake has been read on the connection that the slot has now. -/
def Heard (i : Slot) (log : List Effect) : Prop :=
  ∃ pre pl rs mid, log = pre ++ .heard i (some (pl, rs)) :: mid ∧ .teardown i ∉ mid ∧
    ∀ target, .dialled i target ∉ mid

theorem Heard.append
    {i : Slot} {log es : List Effect} (h : Heard i log) (htorn : .teardown i ∉ es)
    (hdialled : ∀ target, .dialled i target ∉ es) :
    Heard i (log ++ es) := by
  obtain ⟨pre, pl, rs, mid, rfl, hmid, hmid'⟩ := h
  refine ⟨pre, pl, rs, mid ++ es, by simp, ?_, fun target => ?_⟩
  · rw [List.mem_append, not_or]
    exact ⟨hmid, htorn⟩
  · rw [List.mem_append, not_or]
    exact ⟨hmid' target, hdialled target⟩

section Deeds

variable (P : Primitives) (E : Env)

/-- One thing that is done to slot `i` or to what the slots share. -/
inductive Deed (cmd : Cmd) (i : Slot) : View → View → Prop
  | minor {v v' : View} (h : Minor v v') : Deed cmd i v v'
  | torn {v : View} (hst : v.ps.state ≠ .idle) : Deed cmd i v (tornDown i v)
  | dialled {v : View} (fd : Nat) (target : Bytes) (hcmd : cmd = .dial)
      (hst : v.ps.state = .idle) :
      Deed cmd i v ((connected .handshakeInit fd (strCopy noxOnionLen target) v).emit
        [.dialled i (strCopy noxOnionLen target)])
  | greet {v : View} (pre : List Effect) (target bytes : Bytes)
      (hlog : v.sh.log = pre ++ [.dialled i target]) :
      Deed cmd i v (v.emit [.sent i bytes])
  | answered {v : View} (fd : Nat) (hcmd : cmd = .inbound) (hst : v.ps.state = .idle) :
      Deed cmd i v ((connected .handshakeResp fd [] v).setSh fun sh =>
        { sh with activePeerIdx := if sh.activePeerIdx < 0 then i.val else sh.activePeerIdx })
  | chosen {v : View} (hcmd : cmd = .dial ∨ cmd = .other) (hst : v.ps.state ≠ .idle) :
      Deed cmd i v (chosen i v)
  | sent {v : View} (bytes : Bytes) (hlive : v.ps.session ≠ none) :
      Deed cmd i v (v.emit [.sent i bytes])
  | heard {v : View} (pl : Bytes) (rs : Key) (hcmd : cmd = .read) (hst : v.ps.state.Handshaking) :
      Deed cmd i v (v.emit [.heard i (some (pl, rs))])
  | misheard {v : View} (hcmd : cmd = .read) (hst : v.ps.state.Handshaking) :
      Deed cmd i v (tornDown i (v.emit [.heard i none]))
  | replied {v : View} (pre : List Effect) (pl bytes : Bytes) (rs : Key)
      (hlog : v.sh.log = pre ++ [.heard i (some (pl, rs))]) :
      Deed cmd i v (v.emit [.sent i bytes])
  | looked {v : View} (onion : Bytes) :
      Deed cmd i v { v with sh := (dbGetContact E onion v.sh).2 }
  | recognised {v : View} (pl onion name : Bytes) (key : Key) (hcmd : cmd = .read)
      (hst : v.ps.state.Handshaking) (hghost : v.sh.ghostMode = false)
      (hclaim : Claims P pl onion key) (hzero : key ≠ Block.zero 32) :
      Deed cmd i v (v.emit [.claim i onion key, .dbGetContact onion (some (name, key))])
  | warned {v : View} (pl onion name : Bytes) (key stored : Key) (hcmd : cmd = .read)
      (hst : v.ps.state.Handshaking) (hclaim : Claims P pl onion key)
      (hzero : stored ≠ Block.zero 32) (hother : stored ≠ key) :
      Deed cmd i v (v.emit [.claim i onion key, .dbGetContact onion (some (name, stored)),
        .keyChanged i onion])
  | greeted {v : View} (pl onion : Bytes) (key : Key) (row : Option (Bytes × Key))
      (hcmd : cmd = .read) (hst : v.ps.state.Handshaking) (hclaim : Claims P pl onion key)
      (hrow : ∀ name stored, row = some (name, stored) → stored = Block.zero 32) :
      Deed cmd i v (v.emit ([.claim i onion key] ++
        (if v.sh.ghostMode then [] else [.dbGetContact onion row]) ++ [.newPeer i onion]))
  | known {v : View} (pre : List Effect) (onion name : Bytes) (session : NoiseSession)
      (hcmd : cmd = .read) (hst : v.ps.state.Handshaking) (hghost : v.sh.ghostMode = false)
      (hclaim : ∃ pl, Claims P pl onion session.remoteStatic)
      (htarget : v.ps.connectTarget ≠ [] → onion = v.ps.connectTarget)
      (hlog : v.sh.log = pre ++ [.claim i onion session.remoteStatic,
        .dbGetContact onion (some (name, session.remoteStatic))])
      (hzero : session.remoteStatic ≠ Block.zero 32) (hheard : Heard i v.sh.log) :
      Deed cmd i v (knownUp i onion session v)
  | prompted {v : View} (fd : Int) (onion name : Bytes) (key : Key) (zeroKey : Bool)
      (hcmd : cmd = .read) (hst : v.ps.state.Handshaking)
      (hclaim : ∃ pl, Claims P pl onion key)
      (htarget : v.ps.connectTarget ≠ [] → onion = v.ps.connectTarget)
      (hheard : Heard i v.sh.log) :
      Deed cmd i v (prompted fd onion name key zeroKey v)
  | saved {v : View} (onion name : Bytes) (key : Key) (hcmd : cmd = .accept i onion name key)
      (hst : v.ps.state = .tofuPending) :
      Deed cmd i v (v.emit [.dbAddContact onion name key])
  | accepted {v : View} (onion name : Bytes) (key : Key) (session : NoiseSession)
      (hcmd : cmd = .accept i onion name key) (hst : v.ps.state = .tofuPending)
      (honion : v.ps.tofuOnion = onion) (hkey : session.remoteStatic = v.ps.tofuNewKey) :
      Deed cmd i v (acceptedUp i session v)
  | added {v : View} (onion name : Bytes) (hcmd : cmd = .add onion name) :
      Deed cmd i v (v.emit [.dbAddContact onion name (Block.zero 32)])
  | queued {v : View} (texts : List Bytes) (text : Bytes) (hver : v.ps.peerVerified = true)
      (hghost : v.sh.ghostMode = false)
      (htaken : .dbProcessQueue v.ps.peerOnion texts ∈ v.sh.log) (hmem : text ∈ texts) :
      Deed cmd i v (v.emit
        [.queueSend i v.ps.peerOnion text (v.ps.session.map NoiseSession.remoteStatic)])
  | rxCleared {v : View} (hrx : v.ps.rxFile.active = false) :
      Deed cmd i v (v.setPs fun ps => { ps with rxFile := {} })
  | rxOpened {v : View} (pt name : Bytes) (size : Nat) (hash : Block 32)
      (hst : v.ps.state = .active) (hrx : v.ps.rxFile.active = false)
      (hdir : v.sh.downloadsDirFd ≥ 0) (hname : name ≠ [])
      (hrec : ∃ pre, v.sh.log = pre ++ [.fileRecord i pt]) (hann : Announces pt size hash)
      (hsize : 0 < size) :
      Deed cmd i v ((v.emit [.fileCreate i name]).setPs fun ps =>
        { ps with state := .fileRx, rxFile := newRx name size hash })
  | rxStillborn {v : View} (name : Bytes)
      (hst : v.ps.state = .active) (hrx : v.ps.rxFile.active = false) :
      Deed cmd i v (v.emit [.fileCreate i name, .fileUnlink i name])
  | rxGrown {v : View} (data : Bytes) (hst : v.ps.state = .fileRx)
      (hrx : v.ps.rxFile.active = true)
      (hmore : v.ps.rxFile.receivedBytes + data.length < v.ps.rxFile.expectedSize) :
      Deed cmd i v ((v.emit [.fileWrite i v.ps.rxFile.localName data]).setPs fun ps =>
        { ps with rxFile := ps.rxFile.grow data })
  | rxCompleted {v : View} (data : Bytes) (hst : v.ps.state = .fileRx)
      (hrx : v.ps.rxFile.active = true)
      (hall : v.ps.rxFile.receivedBytes + data.length = v.ps.rxFile.expectedSize)
      (hhash : P.generichash (v.ps.rxFile.hashState ++ data) = v.ps.rxFile.expectedHash) :
      Deed cmd i v (rxOver (v.emit [.fileWrite i v.ps.rxFile.localName data,
        .fileDone i v.ps.rxFile.localName]))
  | rxDropped {v : View} (es es' : List Effect) (hst : v.ps.state = .fileRx)
      (hrx : v.ps.rxFile.active = true)
      (hes : ∀ e ∈ es, ∃ data, e = .fileWrite i v.ps.rxFile.localName data)
      (hun : es' = unlinkPartial i v ∨ es' = [.fileUnlink i v.ps.rxFile.localName]) :
      Deed cmd i v (rxOver (v.emit (es ++ es')))
  | forgot {v : View} : Deed cmd i v (v.setSh torForget)

/-- Any number of deeds. -/
def Deeds (cmd : Cmd) (i : Slot) : View → View → Prop :=
  Relation.ReflTransGen (Deed P E cmd i)

end Deeds

namespace Deeds

variable {P : Primitives} {E : Env} {cmd : Cmd} {i : Slot} {v v' v'' : View}

theorem refl (v : View) : Deeds P E cmd i v v :=
  Relation.ReflTransGen.refl

theorem one (h : Deed P E cmd i v v') : Deeds P E cmd i v v' :=
  Relation.ReflTransGen.single h

theorem trans (h : Deeds P E cmd i v v') (h' : Deeds P E cmd i v' v'') : Deeds P E cmd i v v'' :=
  Relation.ReflTransGen.trans h h'

theorem of_minor (h : Minor v v') : Deeds P E cmd i v v' :=
  one (.minor h)

/-- A deed after minor changes. -/
theorem after (h : Minor v v') (h' : Deed P E cmd i v' v'') : Deeds P E cmd i v v'' :=
  (of_minor h).trans (one h')

/-- A deed with minor changes behind it. -/
theorem before (h : Deed P E cmd i v v') (h' : Minor v' v'') : Deeds P E cmd i v v'' :=
  (one h).trans (of_minor h')

end Deeds

/-- Deeds that leave what counts as it is, as sending does. -/
structure Sends (P : Primitives) (E : Env) (cmd : Cmd) (i : Slot) (v v' : View) : Prop where
  deeds : Deeds P E cmd i v v'
  ps : v'.ps.core = v.ps.core
  sh : v'.sh.core = v.sh.core
  log : v.sh.log <+: v'.sh.log

namespace Sends

variable {P : Primitives} {E : Env} {cmd : Cmd} {i : Slot} {v v' v'' : View}

theorem of_minor (h : Minor v v') : Sends P E cmd i v v' :=
  ⟨Deeds.of_minor h, h.ps, h.sh, h.log.elim fun es hes => ⟨es, hes.1.symm⟩⟩

theorem trans (h : Sends P E cmd i v v') (h' : Sends P E cmd i v' v'') : Sends P E cmd i v v'' :=
  ⟨h.deeds.trans h'.deeds, h'.ps.trans h.ps, h'.sh.trans h.sh, h.log.trans h'.log⟩

/-- Minor changes behind it. -/
theorem thenMinor (h : Sends P E cmd i v v') (h' : Minor v' v'') : Sends P E cmd i v v'' :=
  h.trans (of_minor h')

end Sends

section Handshaking

variable {P : Primitives} {E : Env} {cmd : Cmd} {i : Slot} {v v' : View}

theorem Minor.state (h : Minor v v') : v'.ps.state = v.ps.state := by
  have hst : v'.ps.core.state = v.ps.core.state := by
    rw [h.ps]
  exact hst

theorem Minor.peerVerified (h : Minor v v') : v'.ps.peerVerified = v.ps.peerVerified := by
  have hver : v'.ps.core.peerVerified = v.ps.core.peerVerified := by
    rw [h.ps]
  exact hver

theorem Minor.peerOnion (h : Minor v v') : v'.ps.peerOnion = v.ps.peerOnion := by
  have honion : v'.ps.core.peerOnion = v.ps.core.peerOnion := by
    rw [h.ps]
  exact honion

theorem Minor.remote (h : Minor v v') :
    v'.ps.session.map NoiseSession.remoteStatic = v.ps.session.map NoiseSession.remoteStatic := by
  have hcore : ∀ ps : PeerSession, ps.core.session.map NoiseSession.remoteStatic =
      ps.session.map NoiseSession.remoteStatic := by
    intro ps
    rw [PeerSession.core, Option.map_map]
    rfl
  rw [← hcore v'.ps, ← hcore v.ps, h.ps]

/-- A handshake that runs after a deed ran before it, unless the deed is a new connection. -/
theorem Deed.handshaking
    (h : Deed P E cmd i v v') (hdial : cmd ≠ .dial) (hin : cmd ≠ .inbound)
    (hst : v'.ps.state.Handshaking) :
    v.ps.state.Handshaking := by
  cases h with
  | minor hminor =>
      rw [← hminor.state]
      exact hst
  | torn => rcases hst with h | h <;> cases h
  | misheard => rcases hst with h | h <;> cases h
  | dialled fd target hcmd => exact absurd hcmd hdial
  | answered fd hcmd => exact absurd hcmd hin
  | known => rcases hst with h | h <;> cases h
  | prompted => rcases hst with h | h <;> cases h
  | accepted => rcases hst with h | h <;> cases h
  | rxOpened => rcases hst with h | h <;> cases h
  | rxCompleted => rcases hst with h | h <;> cases h
  | rxDropped => rcases hst with h | h <;> cases h
  | _ => exact hst

theorem Deeds.handshaking
    (h : Deeds P E cmd i v v') (hdial : cmd ≠ .dial) (hin : cmd ≠ .inbound)
    (hst : v'.ps.state.Handshaking) :
    v.ps.state.Handshaking := by
  induction h with
  | refl => exact hst
  | tail _ hdeed ih => exact ih (hdeed.handshaking hdial hin hst)

end Handshaking

/-- A session that has encrypted or decrypted is still the same session. -/
theorem core_session
    {s : Option NoiseSession} {ps : PeerSession}
    (h : s.map NoiseSession.remoteStatic = ps.session.map NoiseSession.remoteStatic) :
    ({ ps with session := s } : PeerSession).core = ps.core := by
  have hcore : s.map sessionCore = ps.session.map sessionCore := by
    cases s with
    | none =>
        cases hps : ps.session with
        | none => rfl
        | some session => simp [hps] at h
    | some s =>
        cases hps : ps.session with
        | none => simp [hps] at h
        | some session =>
            simp only [hps, Option.map_some, Option.some.injEq] at h
            simp [sessionCore, h]
  simp [PeerSession.core, hcore]

end App
end Noxtor
