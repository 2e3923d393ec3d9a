import Noxtor.App.DatabaseRun

/-!
# To whom the queue is sent

A text that was queued for an address is only encrypted for a peer whose claim of that
address has been verified, and whose key was the stored one when the handshake completed.
What the flags of a slot promise is read off the log: `Vouched` is the evidence for the peer
of a verified slot, and `TofuLive` a session that the user has accepted and that has not
ended.  For whom a text was queued is read off the database behind the log (`DbRun`).
-/

namespace Noxtor
namespace App

open ByteString Noise

/-- The slot has neither been torn down nor been given a session by the user. -/
def SameSession (i : Slot) (es : List Effect) : Prop :=
  ∀ e ∈ es, e ≠ .teardown i ∧ ∀ key, e ≠ .tofuSession i key

/-- Slot `i` has verified a claim of `onion` with `key` and found `key` among the contacts, and
the session that followed is still the same. -/
def Vouched (P : Primitives) (i : Slot) (onion : Bytes) (key : Key) (log : List Effect) : Prop :=
  ∃ before name mid pl,
    log = before ++ .claim i onion key :: .dbGetContact onion (some (name, key)) :: mid ∧
    SameSession i mid ∧ key ≠ Block.zero 32 ∧ Claims P pl onion key

/-- The user has accepted the session of slot `i`, and it has not been torn down. -/
def TofuLive (i : Slot) (key : Key) (log : List Effect) : Prop :=
  ∃ before mid, log = before ++ .tofuSession i key :: mid ∧ .teardown i ∉ mid

section Evidence

variable {P : Primitives} {i : Slot} {onion : Bytes} {key : Key} {log es : List Effect}

theorem sameSession_of_owner
    (h : ∀ e ∈ es, e.owner ≠ some i) :
    SameSession i es := by
  intro e he
  constructor
  · rintro rfl
    exact h _ he rfl
  · rintro k rfl
    exact h _ he rfl

theorem Vouched.append
    (h : Vouched P i onion key log) (hes : SameSession i es) :
    Vouched P i onion key (log ++ es) := by
  obtain ⟨before, name, mid, pl, rfl, hmid, hzero, hclaim⟩ := h
  refine ⟨before, name, mid ++ es, pl, by simp, ?_, hzero, hclaim⟩
  intro e he
  obtain he | he := List.mem_append.mp he
  · exact hmid e he
  · exact hes e he

/-- A live session was live before effects that do not bring it up. -/
theorem TofuLive.of_append
    (h : TofuLive i key (log ++ es)) (hes : ∀ k, .tofuSession i k ∉ es) :
    TofuLive i key log ∧ .teardown i ∉ es := by
  obtain ⟨before, mid, hsplit, hmid⟩ := h
  rcases List.append_eq_append_iff.mp hsplit with ⟨x, -, hx⟩ | ⟨x, hlog, hx⟩
  · exact absurd (by rw [hx]; simp) (hes key)
  · cases x with
    | nil =>
        exact absurd (by rw [← List.nil_append es, ← hx]; simp) (hes key)
    | cons e x =>
        rw [List.cons_append, List.cons.injEq] at hx
        obtain ⟨rfl, rfl⟩ := hx
        rw [List.mem_append, not_or] at hmid
        exact ⟨⟨before, x, hlog, hmid.1⟩, hmid.2⟩

end Evidence

/-- The flags of slot `i` are backed by the log. -/
structure Vouching (P : Primitives) (i : Slot) (ps : PeerSession) (log : List Effect) : Prop where
  inSession : ps.peerVerified = true → ps.state.InSession
  vouched : ps.peerVerified = true → ∃ key,
    ps.session.map NoiseSession.remoteStatic = some key ∧ Vouched P i ps.peerOnion key log
  tofu : ∀ key, TofuLive i key log → ps.state.InSession ∧ ps.peerVerified = false

section Vouching

variable {P : Primitives} {E : Env} {cmd : Cmd} {i : Slot} {ps ps' : PeerSession}
variable {log es : List Effect} {v v' : View}

/-- The slot has not changed in what counts. -/
theorem Vouching.same
    (h : Vouching P i ps log) (hver : ps'.peerVerified = ps.peerVerified)
    (hst : ps.state.InSession → ps'.state.InSession) (honion : ps'.peerOnion = ps.peerOnion)
    (hsess : ps'.session.map NoiseSession.remoteStatic =
      ps.session.map NoiseSession.remoteStatic)
    (hes : SameSession i es) :
    Vouching P i ps' (log ++ es) := by
  constructor
  · intro hv
    rw [hver] at hv
    exact hst (h.inSession hv)
  · intro hv
    rw [hver] at hv
    obtain ⟨key, hkey, hvouch⟩ := h.vouched hv
    rw [honion, hsess]
    exact ⟨key, hkey, hvouch.append hes⟩
  · intro key hlive
    have hold := (hlive.of_append (fun k hmem => (hes _ hmem).2 k rfl)).1
    obtain ⟨hin, hno⟩ := h.tofu key hold
    exact ⟨hst hin, by rw [hver]; exact hno⟩

/-- The slot is not verified. -/
theorem Vouching.unverified
    (hver : ps'.peerVerified = false)
    (htofu : ∀ key, TofuLive i key log → ps'.state.InSession) :
    Vouching P i ps' log := by
  constructor
  · intro hv
    rw [hver] at hv
    cases hv
  · intro hv
    rw [hver] at hv
    cases hv
  · intro key hlive
    exact ⟨htofu key hlive, hver⟩

theorem not_inSession_idle
    {st : PeerState} (h : st = .idle) :
    ¬ st.InSession := by
  rintro (h' | h') <;> rw [h] at h' <;> cases h'

theorem not_inSession_handshaking
    {st : PeerState} (h : st.Handshaking) :
    ¬ st.InSession := by
  rcases h with h | h <;> rintro (h' | h') <;> rw [h] at h' <;> cases h'

/-- A slot outside a session is not verified and has no session of the user. -/
theorem Vouching.outside
    (h : Vouching P i ps log) (hst : ¬ ps.state.InSession) :
    ps.peerVerified = false ∧ ∀ key, ¬ TofuLive i key log := by
  constructor
  · cases hv : ps.peerVerified with
    | false => rfl
    | true => exact absurd (h.inSession hv) hst
  · intro key hlive
    exact hst (h.tofu key hlive).1

/-- The slot becomes, or stays, one that is not verified and not in session. -/
theorem Vouching.leave
    (ps' : PeerSession) (h : Vouching P i ps log) (hst : ¬ ps.state.InSession)
    (hver : ps'.peerVerified = false) :
    Vouching P i ps' log :=
  .unverified hver (fun key hlive => absurd hlive ((h.outside hst).2 key))

/-- The session with a known peer is vouched for. -/
theorem Vouching.known
    {pre : List Effect} {onion name : Bytes} {session : NoiseSession}
    (h : Vouching P i v.ps v.sh.log) (hst : v.ps.state.Handshaking)
    (hclaim : ∃ pl, Claims P pl onion session.remoteStatic)
    (hlog : v.sh.log = pre ++ [.claim i onion session.remoteStatic,
      .dbGetContact onion (some (name, session.remoteStatic))])
    (hzero : session.remoteStatic ≠ Block.zero 32) :
    Vouching P i (knownUp i onion session v).ps (knownUp i onion session v).sh.log := by
  obtain ⟨pl, hclaim⟩ := hclaim
  have honion : strCopy noxOnionLen onion = onion := by
    rw [← hclaim.address]
    exact claimOnion_fits pl
  have hone : ∀ o, SameSession i [.knownSession i o session.remoteStatic] := by
    intro o e he
    rw [List.mem_singleton.mp he]
    exact ⟨by simp, by simp⟩
  have hvouch : Vouched P i onion session.remoteStatic v.sh.log :=
    ⟨pre, name, [], pl, hlog, fun _ he => absurd he List.not_mem_nil, hzero, hclaim⟩
  constructor
  · intro _
    exact Or.inl rfl
  · intro _
    refine ⟨session.remoteStatic, rfl, ?_⟩
    show Vouched P i (strCopy noxOnionLen onion) _ _
    rw [honion]
    exact hvouch.append (hone _)
  · intro key hlive
    have hold := (hlive.of_append (fun k hmem => (hone _ _ hmem).2 k rfl)).1
    exact absurd hold ((h.outside (not_inSession_handshaking hst)).2 key)

/-- A deed of the slot keeps its flags backed. -/
theorem Deed.vouching
    (h : Deed P E cmd i v v') (hinv : Vouching P i v.ps v.sh.log) :
    Vouching P i v'.ps v'.sh.log := by
  have hsame : ∀ ps' : PeerSession,
      ps'.peerVerified = v.ps.peerVerified → (v.ps.state.InSession → ps'.state.InSession) →
      ps'.peerOnion = v.ps.peerOnion → ps'.session = v.ps.session →
      ∀ es, (∀ e ∈ es, e ≠ .teardown i ∧ ∀ key, e ≠ .tofuSession i key) →
      Vouching P i ps' (v.sh.log ++ es) :=
    fun ps' h1 h2 h3 h4 es hes => hinv.same h1 h2 h3 (by rw [h4]) hes
  cases h with
  | minor hminor =>
      obtain ⟨es, hlog, hes⟩ := hminor.log
      rw [hlog]
      refine hinv.same hminor.peerVerified (by rw [hminor.state]; exact id) hminor.peerOnion
        hminor.remote (fun e he => ⟨?_, fun key => ?_⟩)
      · rintro rfl
        cases hes _ he
      · rintro rfl
        cases hes _ he
  | torn _ =>
      have hlog : (tornDown i v).sh.log = v.sh.log ++ unlinkPartial i v ++ [.teardown i] := rfl
      rw [hlog]
      refine .unverified rfl (fun key hlive => ?_)
      exact absurd List.mem_cons_self (hlive.of_append (by simp)).2
  | misheard _ _ =>
      have hlog : (tornDown i (v.emit [.heard i none])).sh.log =
          v.sh.log ++ [.heard i none] ++ unlinkPartial i v ++ [.teardown i] := rfl
      rw [hlog]
      refine .unverified rfl (fun key hlive => ?_)
      exact absurd List.mem_cons_self (hlive.of_append (by simp)).2
  | dialled fd target hcmd hst =>
      have hver := (hinv.outside (not_inSession_idle hst)).1
      exact (hinv.leave (connected .handshakeInit fd (strCopy noxOnionLen target) v).ps
        (not_inSession_idle hst) hver).same rfl id rfl rfl (by simp [SameSession])
  | greet _ _ bytes _ => exact hsame v.ps rfl id rfl rfl _ (by simp)
  | sent bytes _ => exact hsame v.ps rfl id rfl rfl _ (by simp)
  | heard pl rs _ _ => exact hsame v.ps rfl id rfl rfl _ (by simp)
  | replied _ _ bytes _ _ => exact hsame v.ps rfl id rfl rfl _ (by simp)
  | answered fd hcmd hst =>
      exact hinv.leave _ (not_inSession_idle hst) (hinv.outside (not_inSession_idle hst)).1
  | chosen _ _ => exact hinv
  | looked onion =>
      unfold dbGetContact
      split <;> exact hsame v.ps rfl id rfl rfl _ (by simp)
  | recognised _ onion name key _ _ _ _ _ => exact hsame v.ps rfl id rfl rfl _ (by simp)
  | warned _ onion name key stored _ _ _ _ _ => exact hsame v.ps rfl id rfl rfl _ (by simp)
  | greeted _ onion key row _ _ _ _ =>
      refine hsame v.ps rfl id rfl rfl _ ?_
      split <;> simp
  | known pre onion name session _ hst _ hclaim _ hlog hzero _ =>
      exact hinv.known hst hclaim hlog hzero
  | prompted fd onion name key zeroKey _ hst _ _ _ =>
      exact hinv.leave _ (not_inSession_handshaking hst) rfl
  | saved onion name key _ _ => exact hsame v.ps rfl id rfl rfl _ (by simp)
  | accepted onion name key session _ _ _ _ =>
      exact .unverified rfl (fun _ _ => Or.inl rfl)
  | added onion name _ => exact hsame v.ps rfl id rfl rfl _ (by simp)
  | queued texts text _ _ _ _ => exact hsame v.ps rfl id rfl rfl _ (by simp)
  | rxCleared _ =>
      have h := hsame { v.ps with rxFile := {} } rfl id rfl rfl [] (by simp)
      rw [List.append_nil] at h
      exact h
  | rxOpened pt name size hash _ _ _ _ _ _ _ =>
      refine hsame _ ?_ ?_ ?_ ?_ [.fileCreate i name] (by simp)
      · rfl
      · exact fun _ => Or.inr rfl
      · rfl
      · rfl
  | rxStillborn name _ _ => exact hsame v.ps rfl id rfl rfl _ (by simp)
  | rxGrown data _ _ _ =>
      refine hsame _ ?_ ?_ ?_ ?_ [.fileWrite i v.ps.rxFile.localName data] (by simp)
      · rfl
      · exact id
      · rfl
      · rfl
  | rxCompleted data _ _ _ _ =>
      refine hsame _ ?_ ?_ ?_ ?_ [.fileWrite i v.ps.rxFile.localName data,
        .fileDone i v.ps.rxFile.localName] (by simp)
      · rfl
      · exact fun _ => Or.inl rfl
      · rfl
      · rfl
  | rxDropped es es' _ _ hes hun =>
      refine hsame _ ?_ ?_ ?_ ?_ (es ++ es') (fun e he => ?_)
      · rfl
      · exact fun _ => Or.inl rfl
      · rfl
      · rfl
      obtain he | he := List.mem_append.mp he
      · obtain ⟨data, rfl⟩ := hes e he
        simp
      · rcases hun with rfl | rfl
        · rw [mem_unlinkPartial he]
          simp
        · rw [List.mem_singleton.mp he]
          simp
  | forgot => exact hinv

end Vouching

/-- The text is one of a flush for the address of a peer that had been vouched for, and no
session of the user was live. -/
structure QueueSafe (P : Primitives) (pre : List Effect) (i : Slot) (onion text : Bytes)
    (remote : Option Key) : Prop where
  vouched : ∃ key, remote = some key ∧ Vouched P i onion key pre
  tofu : ∀ key, ¬ TofuLive i key pre
  taken : ∃ texts, .dbProcessQueue onion texts ∈ pre ∧ text ∈ texts

/-- What the queue relies on in every state. -/
structure QueueInv (P : Primitives) (s : AppState) : Prop where
  slots : ∀ i, Vouching P i (s.peers i) s.sh.log
  past : ∀ pre i onion text remote post,
    s.sh.log = pre ++ .queueSend i onion text remote :: post →
    QueueSafe P pre i onion text remote

section Runs

variable {P : Primitives} {E : Env}

/-- The last effect of a log, or an earlier one. -/
theorem append_split
    {log es pre post : List Effect} {e : Effect} (h : log ++ es = pre ++ e :: post) :
    (∃ post', log = pre ++ e :: post') ∨ ∃ a b, es = a ++ e :: b ∧ pre = log ++ a := by
  rcases List.append_eq_append_iff.mp h with ⟨x, hx, hes⟩ | ⟨x, hlog, hx⟩
  · exact Or.inr ⟨x, post, hes, hx⟩
  · cases x with
    | nil =>
        exact Or.inr ⟨[], post, by rw [List.nil_append] at hx ⊢; exact hx.symm,
          by rw [hlog, List.append_nil, List.append_nil]⟩
    | cons e' x =>
        rw [List.cons_append, List.cons.injEq] at hx
        exact Or.inl ⟨x, by rw [hlog, ← hx.1]⟩

/-- Only a verified slot sends from the queue, and only what a flush has taken. -/
theorem Emits.queueSends
    {cmd : Cmd} {i j : Slot} {v : View} {es a b : List Effect} {onion text : Bytes}
    {remote : Option Key} (h : Emits cmd i v es)
    (hes : es = a ++ .queueSend j onion text remote :: b) :
    a = [] ∧ j = i ∧ onion = v.ps.peerOnion ∧ v.ps.peerVerified = true ∧
      remote = v.ps.session.map NoiseSession.remoteStatic ∧
      ∃ texts, .dbProcessQueue onion texts ∈ v.sh.log ∧ text ∈ texts := by
  have hmem : .queueSend j onion text remote ∈ es := by
    rw [hes]
    simp
  cases h with
  | minor h => cases h _ hmem
  | torn =>
      obtain he | he := List.mem_append.mp hmem
      · cases mem_unlinkPartial he
      · cases List.mem_singleton.mp he
  | misheard =>
      obtain he | he := List.mem_cons.mp hmem
      · cases he
      obtain he | he := List.mem_append.mp he
      · cases mem_unlinkPartial he
      · cases List.mem_singleton.mp he
  | greeted => split at hmem <;> simp at hmem
  | queued texts t hver htaken ht =>
      cases a with
      | nil =>
          rw [List.nil_append, List.cons.injEq] at hes
          cases hes.1
          exact ⟨rfl, rfl, rfl, hver, rfl, texts, htaken, ht⟩
      | cons e a =>
          simp at hes
  | file h => cases h _ hmem
  | _ => simp at hmem

/-- Every deed keeps what the queue relies on. -/
theorem Deed.queueInv
    {cmd : Cmd} {i : Slot} {s : AppState} {v : View} (h : Deed P E cmd i (s.view i) v)
    (hinv : QueueInv P s) :
    QueueInv P (s.put i v) := by
  obtain ⟨es, hlog, hes⟩ := h.emits
  change v.sh.log = s.sh.log ++ es at hlog
  constructor
  · intro j
    by_cases hj : j = i
    · subst hj
      rw [AppState.put_peers_same, AppState.put_sh]
      exact h.vouching (hinv.slots j)
    · rw [AppState.put_peers_ne s v hj, AppState.put_sh, hlog]
      refine (hinv.slots j).same rfl id rfl rfl (sameSession_of_owner (fun e he howner => ?_))
      rcases hes.owner e he with hnone | hsome
      · rw [hnone] at howner
        cases howner
      · rw [hsome, Option.some.injEq] at howner
        exact hj howner.symm
  · intro pre j onion text remote post hsplit
    rw [AppState.put_sh, hlog] at hsplit
    rcases append_split hsplit with ⟨post', hold⟩ | ⟨a, b, hab, rfl⟩
    · exact hinv.past pre j onion text remote post' hold
    · obtain ⟨rfl, rfl, rfl, hver, rfl, htaken⟩ := hes.queueSends hab
      have hslot := hinv.slots j
      rw [List.append_nil]
      refine ⟨hslot.vouched hver, fun key hlive => ?_, htaken⟩
      have hno := (hslot.tofu key hlive).2
      rw [show (s.peers j).peerVerified = true from hver] at hno
      cases hno

theorem appRun_queueInv
    (c : Config) (evs : List AppEvent) :
    QueueInv P (appRun P E (initialState c) evs) := by
  refine appRun_keep (fun cmd i t v hinv hdeed => hdeed.queueInv hinv) evs (initialState_ok c) ?_
  refine ⟨fun i => .unverified rfl (fun key hlive => ?_), fun pre i onion text remote post h => ?_⟩
  · obtain ⟨before, mid, hlog, -⟩ := hlive
    exact absurd hlog (by simp [initialState])
  · exact absurd h (by simp [initialState])

end Runs

/--
Queue confidentiality.  In every run on a database that nobody else writes to, a text that is
handed to the callback of a slot was queued for the address `onion` of that slot; the session of
the slot has a remote key `key`, not zero, such that a claim of `onion` with `key` has been
verified on this slot and `key` was stored for `onion` at that moment; since then the slot has
not been torn down and the user has not been asked.  A session that the user has accepted sends
nothing from the queue before it is torn down.
-/
theorem queue_confidentiality
    (P : Primitives) (E : Env) (c : Config) (evs : List AppEvent)
    (D : Db.DbPrimitives) (hopens : D.Opens) (dbKey : Key) (stored : List (Bytes × Bytes))
    (db0 db : Db.DbState) (hqueue : HonestQueue D dbKey stored db0)
    (hdb : DbRun D (fun _ => True) db0 (appRun P E (initialState c) evs).sh.log db)
    (pre : List Effect) (i : Slot) (onion text : Bytes) (remote : Option Key)
    (post : List Effect)
    (hsend : (appRun P E (initialState c) evs).sh.log =
      pre ++ .queueSend i onion text remote :: post)
    (hcoll : Db.NoCollision D dbKey (onion :: (stored ++ queuedBy pre).map Prod.fst)) :
    (∃ queued, (onion, queued) ∈ stored ++ queuedBy pre ∧ text = cstr queued) ∧
    (∃ key pl before name mid db1, remote = some key ∧ key ≠ Block.zero 32 ∧
      Claims P pl onion key ∧
      pre = before ++ .claim i onion key :: .dbGetContact onion (some (name, key)) :: mid ∧
      DbRun D (fun _ => True) db0 (before ++ [.claim i onion key]) db1 ∧
      DbRun D (fun _ => True) db1 (.dbGetContact onion (some (name, key)) :: mid ++
        .queueSend i onion text remote :: post) db ∧
      Db.storedContact D onion db1 = .ok (name, key) ∧ SameSession i mid) ∧
    ∀ key before mid, pre = before ++ .tofuSession i key :: mid → .teardown i ∈ mid := by
  obtain ⟨⟨key, hremote, before, name, mid, pl, hpre, hmid, hzero, hclaim⟩, htofu,
      texts, htaken, htext⟩ :=
    (appRun_queueInv (P := P) (E := E) c evs).past pre i onion text remote post hsend
  rw [hsend] at hdb
  refine ⟨?_, ?_, ?_⟩
  · -- the flush that has taken the text
    obtain ⟨a, b, rfl⟩ := List.append_of_mem htaken
    rw [List.append_assoc, List.cons_append] at hdb
    have hsub : stored ++ queuedBy a ⊆
        stored ++ queuedBy (a ++ .dbProcessQueue onion texts :: b) := by
      rw [queuedBy_append, ← List.append_assoc]
      exact List.subset_append_left _ _
    have hcoll' : Db.NoCollision D dbKey (onion :: (stored ++ queuedBy a).map Prod.fst) := by
      have hfst := List.cons_subset_cons onion (List.map_subset Prod.fst hsub)
      exact fun o ho o' ho' => hcoll o (hfst ho) o' (hfst ho')
    obtain ⟨queued, hmem, heq⟩ := DbRun.texts_queued hopens hqueue hdb hcoll' htext
    exact ⟨queued, hsub hmem, heq⟩
  · -- the lookup behind the claim
    have hlog : before ++ .claim i onion key :: .dbGetContact onion (some (name, key)) :: mid =
        (before ++ [.claim i onion key]) ++ .dbGetContact onion (some (name, key)) :: mid := by
      rw [List.append_assoc, List.singleton_append]
    rw [hpre, hlog, List.append_assoc, List.cons_append] at hdb
    obtain ⟨db1, db2, hbefore, hstep, hafter⟩ := hdb.cut
    exact ⟨key, pl, before, name, mid, db1, hremote, hzero, hclaim, hpre, hbefore,
      .cons hstep hafter, hstep.lookup_stored, hmid⟩
  · intro key before mid hsplit
    by_contra hno
    exact htofu key ⟨before, mid, hsplit, hno⟩

/-- The handshake of a caller, as the caller sees it. -/
def callerExchange (c b : UInt8) : Exchange :=
  { sampleExchange with
    sI := samplePair b, p0 := [], p1 := sampleClaim 0x64 2, p2 := sampleClaim c b }

/-- The first text of a caller. -/
def callerText (c b : UInt8) (pt : Bytes) : Bytes :=
  match (callerExchange c b).run samplePrimitives with
  | .ok r => frameBytes noxMsgText 0
      ((noiseEncrypt samplePrimitives (some r.sessionI) (.data pt) true).1.getD [])
  | .error _ => []

/-- The contact "b" is stored with the key 7. -/
def knownDb : Db.DbState :=
  (Db.dbAddContact Db.sampleDbPrimitives (Db.sampleDbCall 1) (sampleOnion 0x61) [0x62]
    (samplePair 7).pub Db.sampleDb).2

/-- "b" comes in and writes a text, and one text is queued for "b". -/
def knownEnv : Env :=
  { sampleEnv with
    accept := fun _ => some 5
    recv := fun t =>
      if t = 7 then .data (sampleFrame 0x61 7 false)
      else if t = 17 then .data (sampleFrame 0x61 7 true)
      else if t = 27 then .data (callerText 0x61 7 [0x68, 0])
      else .data []
    dbGetContact := fun _ _ => .ok ([0x62], (samplePair 7).pub)
    dbPending := fun _ _ => [[0x68, 0x69]] }

/-- The same, three answers later. -/
def queuedEnv : Env :=
  { knownEnv with recv := fun t => knownEnv.recv (t - 3) }

/-- A text is queued for "b", and then "b" comes in. -/
def queuedEvents : List AppEvent :=
  [pinnedLine cmdMsg [0x68, 0x69], .accept, .peer 5 false true, .peer 5 false true,
    .peer 5 false true]

/-- The log when the text of "b" has arrived. -/
def queuedLog : List Effect :=
  (appRun samplePrimitives queuedEnv (initialState sampleConfig) queuedEvents).sh.log

/-- The text that was queued for "b" goes to the key that is stored for "b". -/
theorem queue_confidentiality_known :
    queuedLog = queuedLog.take 10 ++ .queueSend 0 (sampleOnion 0x61) [0x68, 0x69]
      (some (samplePair 7).pub) :: queuedLog.drop 11 ∧
    (∃ queued, (sampleOnion 0x61, queued) ∈ queuedBy (queuedLog.take 10) ∧
      [0x68, 0x69] = cstr queued) ∧
    ∃ pl before name mid db,
      Claims samplePrimitives pl (sampleOnion 0x61) (samplePair 7).pub ∧
      queuedLog.take 10 = before ++ .claim 0 (sampleOnion 0x61) (samplePair 7).pub ::
        .dbGetContact (sampleOnion 0x61) (some (name, (samplePair 7).pub)) :: mid ∧
      Db.storedContact Db.sampleDbPrimitives (sampleOnion 0x61) db =
        .ok (name, (samplePair 7).pub) := by
  have hsend : queuedLog = queuedLog.take 10 ++ .queueSend 0 (sampleOnion 0x61) [0x68, 0x69]
      (some (samplePair 7).pub) :: queuedLog.drop 11 := by
    decide +kernel
  have hby : queuedBy (queuedLog.take 10) = [(sampleOnion 0x61, [0x68, 0x69])] := by
    decide +kernel
  have hqueue : HonestQueue Db.sampleDbPrimitives (samplePair 8).priv [] knownDb := by
    refine ⟨fun k hk => ?_, fun row hrow => ?_⟩
    · have hkey : knownDb.dbKey = some (samplePair 8).priv := by
        decide +kernel
      rw [hkey, Option.some.injEq] at hk
      exact hk.symm
    · have hrows : knownDb.queue.rows = [] := by
        decide +kernel
      rw [hrows] at hrow
      cases hrow
  obtain ⟨db, hreplay⟩ : ∃ db, replay Db.sampleDbPrimitives (Db.sampleDbCall 1)
      Db.sampleListCall Db.sampleFlushCall knownDb queuedLog = some db :=
    Option.isSome_iff_exists.mp (by decide +kernel)
  have hdb : DbRun Db.sampleDbPrimitives (fun _ => True) knownDb queuedLog db :=
    replay_sound trivial hreplay
  have hcoll : Db.NoCollision Db.sampleDbPrimitives (samplePair 8).priv
      (sampleOnion 0x61 :: ([] ++ queuedBy (queuedLog.take 10)).map Prod.fst) := by
    rw [hby]
    intro a ha b hb _
    simp only [List.nil_append, List.map_cons, List.map_nil, List.mem_cons, List.not_mem_nil,
      or_false, or_self] at ha hb
    rw [ha, hb]
  obtain ⟨hqueued, ⟨key, pl, before, name, mid, db1, hkey, -, hclaim, hpre, -, -, hrow, -⟩, -⟩ :=
    queue_confidentiality samplePrimitives queuedEnv sampleConfig queuedEvents
      Db.sampleDbPrimitives Db.sampleDbPrimitives_opens (samplePair 8).priv [] knownDb db hqueue
      hdb (queuedLog.take 10) 0 (sampleOnion 0x61) [0x68, 0x69]
      (some (samplePair 7).pub) (queuedLog.drop 11) hsend hcoll
  simp only [List.nil_append] at hqueued
  rw [Option.some.injEq] at hkey
  subst hkey
  exact ⟨hsend, hqueued, pl, before, name, mid, db1, hclaim, hpre, hrow⟩

end App
end Noxtor
