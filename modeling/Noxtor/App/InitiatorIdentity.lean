import Noxtor.App.ActivePeer

/-!
# Whom the initiator shows its identity

The third message of a handshake carries the static key, the address and the signature of the
initiator.  On a dialled connection it is the second write: the first one is the opening
message, and there is nothing else to send before the session is up.

`process_peer_frames` reads the second message, replies and only then checks the claim of the
message.  So the reply goes to a peer that has shown a valid claim for the dialled address if
every second message carries one; it also goes to any other peer that gets through the
handshake.
-/

namespace Noxtor
namespace App

open ByteString Noise

/-- `mid` is what has happened on the connection that slot `i` has dialled to `target`. -/
def OnDial (i : Slot) (target : Bytes) (log mid : List Effect) : Prop :=
  ∃ pre, log = pre ++ .dialled i target :: mid ∧ .teardown i ∉ mid

/-- A second message with a valid claim for the address has been read. -/
def HeardFrom (P : Primitives) (i : Slot) (target : Bytes) (mid : List Effect) : Prop :=
  ∃ pl rs, .heard i (some (pl, rs)) ∈ mid ∧ Claims P pl target rs

/-- What is asked of the dialled connections of a run. -/
structure InitiatorHidden (P : Primitives) (log : List Effect) : Prop where
  written : ∀ i target before bytes post mid, log = before ++ .sent i bytes :: post →
    OnDial i target before mid → (∃ first, .sent i first ∈ mid) → HeardFrom P i target mid
  refused : ∀ i target before message post mid, log = before ++ .heard i message :: post →
    OnDial i target before mid →
    (∀ pl rs, message = some (pl, rs) → ¬ Claims P pl target rs) →
    ∃ next later, post = next ++ .teardown i :: later ∧ ∀ bytes, .sent i bytes ∉ next

/-- Every second message that could be read carries a valid claim for the dialled address. -/
def SecondsClaim (P : Primitives) (log : List Effect) : Prop :=
  ∀ i target before pl rs post mid, log = before ++ .heard i (some (pl, rs)) :: post →
    OnDial i target before mid → Claims P pl target rs

section Dialled

variable {P : Primitives} {i j : Slot} {target : Bytes} {log es mid : List Effect}

theorem SecondsClaim.before
    (h : SecondsClaim P (log ++ es)) :
    SecondsClaim P log := by
  intro i target before pl rs post mid hlog hdial
  exact h i target before pl rs (post ++ es) mid (by rw [hlog]; simp) hdial

/-- A connection that has not been dialled just now has been there before. -/
theorem OnDial.of_append
    (h : OnDial i target (log ++ es) mid) (hno : ∀ t, .dialled i t ∉ es) :
    ∃ mid', mid = mid' ++ es ∧ OnDial i target log mid' ∧ .teardown i ∉ es := by
  obtain ⟨pre, hlog, htorn⟩ := h
  rcases append_split hlog with ⟨post', hold⟩ | ⟨a, b, hes, -⟩
  · rw [hold, List.append_assoc, List.cons_append] at hlog
    have hmid := (List.cons.inj (List.append_cancel_left hlog)).2
    subst hmid
    rw [List.mem_append, not_or] at htorn
    exact ⟨post', rfl, ⟨pre, hold, htorn.1⟩, htorn.2⟩
  · exact absurd (by rw [hes]; simp) (hno target)

theorem OnDial.append
    (h : OnDial i target log mid) (htorn : .teardown i ∉ es) :
    OnDial i target (log ++ es) (mid ++ es) := by
  obtain ⟨pre, rfl, hmid⟩ := h
  refine ⟨pre, by simp, ?_⟩
  rw [List.mem_append, not_or]
  exact ⟨hmid, htorn⟩

theorem HeardFrom.append
    (h : HeardFrom P i target mid) :
    HeardFrom P i target (mid ++ es) := by
  obtain ⟨pl, rs, hmem, hclaim⟩ := h
  exact ⟨pl, rs, List.mem_append_left es hmem, hclaim⟩

/-- New effects need only be looked at where they are. -/
theorem InitiatorHidden.append
    (h : InitiatorHidden P log)
    (hsent : ∀ a k bytes b, es = a ++ .sent k bytes :: b → ∀ t mid,
      OnDial k t (log ++ a) mid → (∃ first, .sent k first ∈ mid) → HeardFrom P k t mid)
    (hheard : ∀ a k message b, es = a ++ .heard k message :: b → ∀ t mid,
      OnDial k t (log ++ a) mid → (∀ pl rs, message = some (pl, rs) → ¬ Claims P pl t rs) →
      ∃ next later, b = next ++ .teardown k :: later ∧ ∀ bytes, .sent k bytes ∉ next) :
    InitiatorHidden P (log ++ es) := by
  constructor
  · intro k t before bytes post mid hlog hdial hfirst
    rcases append_split hlog with ⟨post', hold⟩ | ⟨a, b, hes, rfl⟩
    · exact h.written k t before bytes post' mid hold hdial hfirst
    · exact hsent a k bytes b hes t mid hdial hfirst
  · intro k t before message post mid hlog hdial hbad
    rcases append_split hlog with ⟨post', hold⟩ | ⟨a, b, hes, rfl⟩
    · obtain ⟨next, later, hpost', hquiet⟩ := h.refused k t before message post' mid hold hdial hbad
      refine ⟨next, later ++ es, ?_, hquiet⟩
      rw [hold, hpost', List.append_assoc, List.cons_append] at hlog
      rw [← (List.cons.inj (List.append_cancel_left hlog)).2]
      simp
    · have hpost : post = b := by
        rw [hes, List.append_assoc] at hlog
        exact (List.cons.inj (List.append_cancel_left (List.append_cancel_left hlog))).2.symm
      rw [hpost]
      exact hheard a k message b hes t mid hdial hbad

end Dialled

/-- How the state of a slot fits its dialled connection. -/
structure DialSlot (P : Primitives) (i : Slot) (st : PeerState) (log : List Effect) : Prop where
  idle : st = .idle → ∀ target mid, ¬ OnDial i target log mid
  once : ∀ target mid, OnDial i target log mid → ∀ t, .dialled i t ∉ mid
  heard : st.InSession ∨ st = .tofuPending → ∀ target mid, OnDial i target log mid →
    HeardFrom P i target mid

/-- What holds of the dialled connections, and of the sessions. -/
structure DialInv (P : Primitives) (s : AppState) : Prop where
  past : InitiatorHidden P s.sh.log
  slots : ∀ i, DialSlot P i (s.peers i).state s.sh.log
  authentic : ∀ i, Authentic P (s.peers i)

section Slots

variable {P : Primitives} {E : Env} {cmd : Cmd} {i : Slot} {st st' : PeerState}
  {log es : List Effect} {s : AppState} {v : View}

/-- Effects that do not dial; a slot that gets free is torn down, and one that gets a prompt or
a session had one or has heard from the peer. -/
theorem DialSlot.append
    (h : DialSlot P i st log) (hno : ∀ t, .dialled i t ∉ es)
    (hidle : st' = .idle → st = .idle ∨ .teardown i ∈ es)
    (hheard : st'.InSession ∨ st' = .tofuPending → (st.InSession ∨ st = .tofuPending) ∨
      ∀ target mid, OnDial i target log mid → HeardFrom P i target mid) :
    DialSlot P i st' (log ++ es) := by
  refine ⟨fun hst target mid hdial => ?_, fun target mid hdial t => ?_,
    fun hst target mid hdial => ?_⟩
  · obtain ⟨mid', rfl, hold, htorn⟩ := hdial.of_append hno
    rcases hidle hst with hst | hmem
    · exact h.idle hst target mid' hold
    · exact htorn hmem
  · obtain ⟨mid', rfl, hold, -⟩ := hdial.of_append hno
    rw [List.mem_append, not_or]
    exact ⟨h.once target mid' hold t, hno t⟩
  · obtain ⟨mid', rfl, hold, -⟩ := hdial.of_append hno
    rcases hheard hst with hst | hall
    · exact (h.heard hst target mid' hold).append
    · exact (hall target mid' hold).append

/-- The effects of another slot. -/
theorem DialSlot.foreign
    {k : Slot} (h : DialSlot P k st log) (hk : k ≠ i)
    (howner : ∀ e ∈ es, e.owner = none ∨ e.owner = some i) :
    DialSlot P k st (log ++ es) := by
  refine h.append (fun t hmem => ?_) Or.inl Or.inl
  rcases howner _ hmem with hnone | hsome
  · cases hnone
  · exact hk (Option.some.inj hsome)

/-- A deed of slot `i`, once its effects and its own state are accounted for. -/
theorem DialInv.put
    (h : DialInv P s) (hdeed : Deed P E cmd i (s.view i) v) (hlog : v.sh.log = s.sh.log ++ es)
    (hpast : InitiatorHidden P (s.sh.log ++ es))
    (hslot : DialSlot P i v.ps.state (s.sh.log ++ es)) :
    DialInv P (s.put i v) := by
  obtain ⟨es', hes', hemits⟩ := hdeed.emits
  have heq : es' = es := List.append_cancel_left (hes'.symm.trans hlog)
  subst heq
  refine ⟨?_, fun k => ?_, fun k => ?_⟩
  · rw [AppState.put_sh, hlog]
    exact hpast
  · rw [AppState.put_sh, hlog]
    by_cases hk : k = i
    · subst hk
      rw [AppState.put_peers_same]
      exact hslot
    · rw [AppState.put_peers_ne s v hk]
      exact (h.slots k).foreign hk hemits.owner
  · by_cases hk : k = i
    · subst hk
      rw [AppState.put_peers_same]
      exact hdeed.authentic (h.authentic k)
    · rw [AppState.put_peers_ne s v hk]
      exact h.authentic k

/-- An effect that nobody has to look at. -/
def Effect.plain : Effect → Bool
  | .dialled _ _ => false
  | .heard _ _ => false
  | .sent _ _ => false
  | .teardown _ => false
  | _ => true

/-- A deed that neither writes nor reads a handshake nor ends a connection. -/
theorem DialInv.quiet
    (h : DialInv P s) (hdeed : Deed P E cmd i (s.view i) v) (hlog : v.sh.log = s.sh.log ++ es)
    (hes : ∀ e ∈ es, e.plain = true) (hidle : v.ps.state = .idle → (s.peers i).state = .idle)
    (hheard : v.ps.state.InSession ∨ v.ps.state = .tofuPending →
      ((s.peers i).state.InSession ∨ (s.peers i).state = .tofuPending) ∨
      ∀ target mid, OnDial i target s.sh.log mid → HeardFrom P i target mid) :
    DialInv P (s.put i v) := by
  refine h.put hdeed hlog (h.past.append (fun a k bytes b hsplit => ?_)
    (fun a k message b hsplit => ?_)) ((h.slots i).append (fun t hmem => ?_) ?_ hheard)
  · have := hes (.sent k bytes) (by rw [hsplit]; simp)
    cases this
  · have := hes (.heard k message) (by rw [hsplit]; simp)
    cases this
  · cases hes _ hmem
  · exact fun hst => Or.inl (hidle hst)

/-- What has been read on the connection of the slot was read from the dialled peer. -/
theorem Heard.heardFrom
    {target : Bytes} {mid : List Effect} (h : Heard i log) (hclaims : SecondsClaim P log)
    (hdial : OnDial i target log mid) :
    HeardFrom P i target mid := by
  obtain ⟨pre, pl, rs, rest, hlog, -, hno⟩ := h
  have hdial' : OnDial i target (pre ++ .heard i (some (pl, rs)) :: rest) mid := by
    rw [← hlog]
    exact hdial
  obtain ⟨mid', rfl, hpre, -⟩ := hdial'.of_append (fun t hmem => by
    obtain h | h := List.mem_cons.mp hmem
    · cases h
    · exact hno t h)
  exact ⟨pl, rs, by simp, hclaims i target pre pl rs rest mid' hlog hpre⟩

theorem DialInv.torn
    {rest : List Effect} (h : DialInv P s) (hdeed : Deed P E cmd i (s.view i) v)
    (hlog : v.sh.log = s.sh.log ++ (rest ++ (unlinkPartial i (s.view i) ++ [.teardown i])))
    (hst : v.ps.state = .idle) (hrest : rest = [] ∨ rest = [.heard i none]) :
    DialInv P (s.put i v) := by
  have hun : ∀ e ∈ unlinkPartial i (s.view i) ++ [.teardown i], ∀ k,
      (∀ bytes, e ≠ .sent k bytes) ∧ (∀ m, e ≠ .heard k m) ∧ ∀ t, e ≠ .dialled k t := by
    intro e he k
    obtain he | he := List.mem_append.mp he
    · rw [mem_unlinkPartial he]
      exact ⟨by simp, by simp, by simp⟩
    · rw [List.mem_singleton.mp he]
      exact ⟨by simp, by simp, by simp⟩
  refine h.put hdeed hlog (h.past.append (fun a k bytes b hsplit => ?_)
    (fun a k message b hsplit t mid _ _ => ?_)) ((h.slots i).append (fun t hmem => ?_) ?_ ?_)
  · have hmem : .sent k bytes ∈ rest ++ (unlinkPartial i (s.view i) ++ [.teardown i]) := by
      rw [hsplit]
      simp
    obtain hmem | hmem := List.mem_append.mp hmem
    · rcases hrest with rfl | rfl
      · cases hmem
      · cases List.mem_singleton.mp hmem
    · exact absurd rfl ((hun _ hmem k).1 bytes)
  · rcases append_split hsplit with ⟨post, hold⟩ | ⟨a', b', hab, -⟩
    · -- the message that could not be read
      rcases hrest with rfl | rfl
      · simp at hold
      · cases a with
        | nil =>
            simp only [List.nil_append, List.cons_append, List.cons.injEq,
              Effect.heard.injEq] at hsplit
            obtain ⟨⟨rfl, -⟩, rfl⟩ := hsplit
            exact ⟨_, [], rfl, fun bytes hmem =>
              absurd rfl ((hun _ (List.mem_append_left _ hmem) i).1 bytes)⟩
        | cons e a => simp at hold
    · exact absurd rfl ((hun (.heard k message) (by rw [hab]; simp) k).2.1 message)
  · obtain hmem | hmem := List.mem_append.mp hmem
    · rcases hrest with rfl | rfl
      · cases hmem
      · cases List.mem_singleton.mp hmem
    · exact absurd rfl ((hun _ hmem i).2.2 t)
  · exact fun _ => Or.inr (by simp)
  · rw [hst]
    rintro ((h | h) | h) <;> cases h

/-- The connection is dialled from a free slot. -/
theorem DialInv.dialled
    {target : Bytes} (h : DialInv P s) (hdeed : Deed P E cmd i (s.view i) v)
    (hlog : v.sh.log = s.sh.log ++ [.dialled i target]) (hst : (s.peers i).state = .idle)
    (hv : v.ps.state = .handshakeInit) :
    DialInv P (s.put i v) := by
  refine h.put hdeed hlog (h.past.append (fun a k bytes b hsplit => ?_)
    (fun a k message b hsplit => ?_)) ?_
  · have hmem : .sent k bytes ∈ [Effect.dialled i target] := by
      rw [hsplit]
      simp
    cases List.mem_singleton.mp hmem
  · have hmem : .heard k message ∈ [Effect.dialled i target] := by
      rw [hsplit]
      simp
    cases List.mem_singleton.mp hmem
  · rw [hv]
    refine ⟨fun hidle => (by cases hidle), fun t mid hdial t' hmem => ?_, fun hlive => ?_⟩
    · obtain ⟨pre, hlog, htorn⟩ := hdial
      rcases append_split hlog with ⟨post, hold⟩ | ⟨a, b, hes, rfl⟩
      · rw [hold, List.append_assoc, List.cons_append] at hlog
        rw [← (List.cons.inj (List.append_cancel_left hlog)).2, List.mem_append, not_or] at htorn
        exact (h.slots i).idle hst t post ⟨pre, hold, htorn.1⟩
      · rw [List.append_assoc] at hlog
        cases a with
        | nil =>
            have hmid := (List.cons.inj (List.append_cancel_left hlog)).2
            rw [← hmid] at hmem
            cases hmem
        | cons e a => simp at hes
    · rcases hlive with (h | h) | h <;> cases h

/-- A write, if everything before it on a dialled connection allows it. -/
theorem DialInv.sent
    {bytes : Bytes} (h : DialInv P s) (hdeed : Deed P E cmd i (s.view i) v)
    (hlog : v.sh.log = s.sh.log ++ [.sent i bytes]) (hst : v.ps.state = (s.peers i).state)
    (hsent : ∀ t mid, OnDial i t s.sh.log mid → (∃ first, .sent i first ∈ mid) →
      HeardFrom P i t mid) :
    DialInv P (s.put i v) := by
  refine h.put hdeed hlog (h.past.append (fun a k b' b hsplit t mid hdial hfirst => ?_)
    (fun a k message b hsplit => ?_)) ((h.slots i).append (by simp) ?_ ?_)
  · cases a with
    | nil =>
        simp only [List.nil_append, List.cons.injEq, Effect.sent.injEq] at hsplit
        obtain ⟨⟨rfl, -⟩, -⟩ := hsplit
        rw [List.append_nil] at hdial
        exact hsent t mid hdial hfirst
    | cons e a => simp at hsplit
  · have hmem : .heard k message ∈ [Effect.sent i bytes] := by
      rw [hsplit]
      simp
    cases List.mem_singleton.mp hmem
  · rw [hst]
    exact Or.inl
  · rw [hst]
    exact Or.inl

/-- A message has been read, and by assumption its claim is valid. -/
theorem DialInv.heard
    {pl : Bytes} {rs : Key} (h : DialInv P s) (hdeed : Deed P E cmd i (s.view i) v)
    (hlog : v.sh.log = s.sh.log ++ [.heard i (some (pl, rs))])
    (hclaims : SecondsClaim P v.sh.log) (hst : v.ps.state = (s.peers i).state) :
    DialInv P (s.put i v) := by
  refine h.put hdeed hlog (h.past.append (fun a k bytes b hsplit => ?_)
    (fun a k message b hsplit t mid hdial hbad => ?_)) ((h.slots i).append (by simp) ?_ ?_)
  · have hmem : .sent k bytes ∈ [Effect.heard i (some (pl, rs))] := by
      rw [hsplit]
      simp
    cases List.mem_singleton.mp hmem
  · cases a with
    | nil =>
        simp only [List.nil_append, List.cons.injEq, Effect.heard.injEq] at hsplit
        obtain ⟨⟨rfl, rfl⟩, -⟩ := hsplit
        rw [List.append_nil] at hdial
        exact absurd (hclaims i t s.sh.log pl rs [] mid hlog hdial) (hbad pl rs rfl)
    | cons e a => simp at hsplit
  · rw [hst]
    exact Or.inl
  · rw [hst]
    exact Or.inl

/-- Every deed keeps the invariant, as long as second messages carry valid claims. -/
theorem Deed.dialInv
    (h : DialInv P s) (hdeed : Deed P E cmd i (s.view i) v) (hclaims : SecondsClaim P v.sh.log) :
    DialInv P (s.put i v) := by
  obtain ⟨es, hes, -⟩ := hdeed.emits
  have hclaims' : SecondsClaim P s.sh.log := by
    rw [hes] at hclaims
    exact hclaims.before
  clear hes
  have hsame := hdeed
  have hquiet : ∀ es, v.sh.log = s.sh.log ++ es → (∀ e ∈ es, e.plain = true) →
      v.ps.state = (s.peers i).state → DialInv P (s.put i v) := by
    intro es hlog hplain hst
    refine h.quiet hdeed hlog hplain ?_ ?_
    · rw [hst]
      exact id
    · rw [hst]
      exact Or.inl
  cases hdeed with
  | minor hminor =>
      obtain ⟨es, hlog, hmin⟩ := hminor.log
      refine hquiet es hlog (fun e he => ?_) hminor.state
      have hmin := hmin e he
      cases e <;> first | rfl | cases hmin
  | torn hst =>
      have hlog : (tornDown i (s.view i)).sh.log =
          s.sh.log ++ ([] ++ (unlinkPartial i (s.view i) ++ [.teardown i])) :=
        List.append_assoc _ _ _
      exact h.torn hsame hlog rfl (Or.inl rfl)
  | misheard hcmd hst =>
      have hlog : (tornDown i ((s.view i).emit [.heard i none])).sh.log =
          s.sh.log ++ [.heard i none] ++ unlinkPartial i (s.view i) ++ [.teardown i] := rfl
      rw [List.append_assoc, List.append_assoc] at hlog
      exact h.torn hsame hlog rfl (Or.inr rfl)
  | dialled fd target hcmd hst => exact h.dialled hsame rfl hst rfl
  | greet pre target bytes hlog =>
      refine h.sent hsame rfl rfl (fun t mid hdial hfirst => ?_)
      -- the log ends with the dialling itself, so nothing has been written yet
      obtain ⟨pre', hlog', htorn⟩ := hdial
      have hsplit : pre ++ [.dialled i target] = pre' ++ .dialled i t :: mid :=
        hlog.symm.trans hlog'
      rcases List.eq_nil_or_concat mid with rfl | ⟨mid', last, rfl⟩
      · obtain ⟨first, hmem⟩ := hfirst
        cases hmem
      · have honce := (h.slots i).once t _ ⟨pre', hlog', htorn⟩ target
        rw [List.concat_eq_append, ← List.cons_append, ← List.append_assoc] at hsplit
        obtain ⟨-, hlast⟩ := List.append_inj' hsplit rfl
        cases hlast
        exact absurd (by simp) honce
  | answered fd hcmd hst =>
      refine h.quiet hsame (List.append_nil _).symm (fun e he => absurd he List.not_mem_nil)
        (fun hidle => by cases hidle) ?_
      rintro ((h | h) | h) <;> cases h
  | chosen _ _ => exact hquiet [] (List.append_nil _).symm (by simp) rfl
  | sent bytes hlive =>
      refine h.sent hsame rfl rfl (fun t mid hdial _ => ?_)
      cases hses : (s.peers i).session with
      | none => exact absurd hses hlive
      | some session =>
          have hin := (h.authentic i).inSession session.remoteStatic (by rw [hses]; rfl)
          exact (h.slots i).heard (Or.inl hin) t mid hdial
  | heard pl rs hcmd hst => exact h.heard hsame rfl hclaims rfl
  | replied pre pl bytes rs hlog =>
      refine h.sent hsame rfl rfl (fun t mid hdial _ => ?_)
      have hheard : Heard i s.sh.log :=
        ⟨pre, pl, rs, [], hlog, List.not_mem_nil, fun _ => List.not_mem_nil⟩
      exact hheard.heardFrom hclaims' hdial
  | looked onion =>
      obtain ⟨row, hrow⟩ : ∃ row, (dbGetContact E onion s.sh).2.log =
          s.sh.log ++ [.dbGetContact onion row] := by
        unfold dbGetContact
        split
        · exact ⟨_, rfl⟩
        · exact ⟨_, rfl⟩
      exact hquiet [.dbGetContact onion row] hrow (by simp [Effect.plain]) rfl
  | recognised _ _ _ _ _ _ _ _ _ => exact hquiet _ rfl (by simp [Effect.plain]) rfl
  | warned _ _ _ _ _ _ _ _ _ _ => exact hquiet _ rfl (by simp [Effect.plain]) rfl
  | greeted _ _ _ _ _ _ _ _ =>
      refine hquiet _ rfl ?_ rfl
      split <;> simp [Effect.plain]
  | known pre onion name session hcmd hst hghost hclaim htarget hlog hzero hheard =>
      refine h.quiet hsame rfl (by simp [Effect.plain]) (fun hidle => by cases hidle)
        (fun _ => ?_)
      exact Or.inr fun t mid hdial => hheard.heardFrom hclaims' hdial
  | prompted fd onion name key zeroKey hcmd hst hclaim htarget hheard =>
      refine h.quiet hsame (List.append_nil _).symm (fun e he => absurd he List.not_mem_nil)
        (fun hidle => by cases hidle) (fun _ => ?_)
      exact Or.inr fun t mid hdial => hheard.heardFrom hclaims' hdial
  | saved _ _ _ _ _ => exact hquiet _ rfl (by simp [Effect.plain]) rfl
  | accepted onion name key session hcmd hst honion hkey =>
      exact h.quiet hsame rfl (by simp [Effect.plain]) (fun hidle => by cases hidle)
        (fun _ => Or.inl (Or.inr hst))
  | added _ _ _ => exact hquiet _ rfl (by simp [Effect.plain]) rfl
  | queued _ _ _ _ _ _ => exact hquiet _ rfl (by simp [Effect.plain]) rfl
  | rxCleared _ => exact hquiet [] (List.append_nil _).symm (by simp) rfl
  | rxOpened pt name size hash hst hrx hdir hname hrec hann hsize =>
      exact h.quiet hsame rfl (by simp [Effect.plain]) (fun hidle => by cases hidle)
        (fun _ => Or.inl (Or.inl (Or.inl hst)))
  | rxStillborn _ _ _ => exact hquiet _ rfl (by simp [Effect.plain]) rfl
  | rxGrown _ _ _ _ => exact hquiet _ rfl (by simp [Effect.plain]) rfl
  | rxCompleted data hst hrx hall hhash =>
      exact h.quiet hsame rfl (by simp [Effect.plain]) (fun hidle => by cases hidle)
        (fun _ => Or.inl (Or.inl (Or.inr hst)))
  | rxDropped ws es' hst hrx hws hun =>
      refine h.quiet hsame rfl (fun e he => ?_)
        (fun hidle => by cases hidle) (fun _ => Or.inl (Or.inl (Or.inr hst)))
      obtain he | he := List.mem_append.mp he
      · obtain ⟨data, rfl⟩ := hws e he
        rfl
      · rcases hun with rfl | rfl
        · rw [mem_unlinkPartial he]
          rfl
        · rw [List.mem_singleton.mp he]
          rfl
  | forgot => exact hquiet [] (List.append_nil _).symm (by simp) rfl

end Slots

section Runs

variable {P : Primitives} {E : Env}

theorem initialState_dialInv
    (c : Config) :
    DialInv P (initialState c) := by
  have hnone : ∀ i target mid, ¬ OnDial i target [] mid := by
    rintro i target mid ⟨pre, hlog, -⟩
    simp at hlog
  refine ⟨⟨?_, ?_⟩, fun i => ⟨?_, ?_, ?_⟩, fun i => .of_none rfl (show PeerState.idle ≠ _ by decide)⟩
  · intro i target before bytes post mid hlog
    exact absurd hlog (by simp [initialState])
  · intro i target before message post mid hlog
    exact absurd hlog (by simp [initialState])
  · exact fun _ target mid hdial => hnone i target mid hdial
  · exact fun target mid hdial => absurd hdial (hnone i target mid)
  · exact fun _ target mid hdial => absurd hdial (hnone i target mid)

/--
In every run whose second messages carry valid claims for the dialled addresses, whatever is
written on a dialled connection behind the opening message is written to a peer that has shown
such a claim, and a message that could not be read ends the connection before anything else is
written.
-/
theorem initiator_hidden
    (P : Primitives) (E : Env) (c : Config) (evs : List AppEvent)
    (hclaims : SecondsClaim P (appRun P E (initialState c) evs).sh.log) :
    InitiatorHidden P (appRun P E (initialState c) evs).sh.log := by
  have h := appRun_keep (P := P) (E := E)
    (I := fun s => SecondsClaim P s.sh.log → DialInv P s)
    (s := initialState c) (fun cmd i t v hinv hdeed hlog => ?_) evs (initialState_ok c)
    (fun _ => initialState_dialInv c)
  · exact (h hclaims).past
  · rw [AppState.put_sh] at hlog
    obtain ⟨es, hes, -⟩ := hdeed.emits
    have hbefore : SecondsClaim P t.sh.log := by
      rw [hes] at hlog
      exact hlog.before
    exact hdeed.dialInv (hinv hbefore) hlog

end Runs

/-- The frames of a handshake that the application opens with a peer whose static key is `b` and
that claims the address `sampleOnion c`. -/
def sampleOpening (c b : UInt8) : Except NoxErr (Bytes × Bytes × Bytes) := do
  let hsI ← handshakeInit samplePrimitives true (some (samplePair 2).priv) (some (samplePair 2).pub)
  let hsR ← handshakeInit samplePrimitives false (some (samplePair b).priv) (some (samplePair b).pub)
  let (m0, hsI) ← runHs (handshakeWrite samplePrimitives (sampleCall 4) (.null 0) (some 256)) hsI
  let (_, hsR) ← runHs (handshakeRead samplePrimitives (sampleCall 3) (.data m0) (some 256)) hsR
  let (m1, _) ← runHs (handshakeWrite samplePrimitives (sampleCall 3)
    (.data (sampleClaim c b)) (some 256)) hsR
  let (_, hsI) ← runHs (handshakeRead samplePrimitives (sampleCall 4) (.data m1) (some 256)) hsI
  let (m2, _) ← runHs (handshakeWrite samplePrimitives (sampleCall 4)
    (.data (sampleClaim 0x64 2)) (some 256)) hsI
  return (frameBytes noxMsgCtrl 0 m0, frameBytes noxMsgCtrl 0 m1, frameBytes noxMsgCtrl 1 m2)

/-- The three frames. -/
def openingFrames (c b : UInt8) : Bytes × Bytes × Bytes :=
  match sampleOpening c b with
  | .ok frames => frames
  | .error _ => ([], [], [])

/-- The connection comes up, and a peer with the key 7 answers. -/
def openingEnv (c : UInt8) : Env :=
  { sampleEnv with
    socks5Connect := fun _ => some 5
    recv := fun _ => .data (openingFrames c 7).2.1 }

/-- The user dials `sampleOnion 'a'`, and the answer arrives. -/
def openingEvents : List AppEvent :=
  [.line (cmdConnect ++ sampleOnion 0x61), .peer 5 false true]

/-- What has happened then. -/
def openingLog (c : UInt8) : List Effect :=
  (appRun samplePrimitives (openingEnv c) (initialState sampleConfig) openingEvents).sh.log

/-- The claim of the peer that has been dialled. -/
theorem sampleClaim_claims :
    Claims samplePrimitives (sampleClaim 0x61 7) (sampleOnion 0x61) (samplePair 7).pub where
  length := by decide +kernel
  version := by decide +kernel
  address := by decide +kernel
  valid := by decide +kernel
  signed := ⟨Block.zero 32, by decide +kernel, by decide +kernel⟩

theorem SecondsClaim.of_mem
    {P : Primitives} {log : List Effect}
    (h : ∀ i target pl rs, .heard i (some (pl, rs)) ∈ log → .dialled i target ∈ log →
      Claims P pl target rs) :
    SecondsClaim P log := by
  rintro i target before pl rs post mid rfl ⟨pre, rfl, -⟩
  exact h i target pl rs (by simp) (by simp)

/-- The dialled peer answers with its claim, and the session comes up. -/
theorem initiator_hidden_dialled :
    (∃ rest, openingLog 0x61 =
      [.dialled 0 (sampleOnion 0x61), .sent 0 (openingFrames 0x61 7).1,
        .heard 0 (some (sampleClaim 0x61 7, (samplePair 7).pub)),
        .sent 0 (openingFrames 0x61 7).2.2] ++ rest) ∧
      InitiatorHidden samplePrimitives (openingLog 0x61) := by
  have hlog : openingLog 0x61 =
      [.dialled 0 (sampleOnion 0x61), .sent 0 (openingFrames 0x61 7).1,
        .heard 0 (some (sampleClaim 0x61 7, (samplePair 7).pub)),
        .sent 0 (openingFrames 0x61 7).2.2] ++ (openingLog 0x61).drop 4 := by
    decide +kernel
  have hrest : ∀ e ∈ (openingLog 0x61).drop 4, e.plain = true := by
    decide +kernel
  have hclaims : SecondsClaim samplePrimitives (openingLog 0x61) := by
    refine .of_mem fun i target pl rs hheard hdialled => ?_
    rw [hlog, List.mem_append] at hheard hdialled
    have hheard := hheard.resolve_right fun hmem => by cases hrest _ hmem
    have hdialled := hdialled.resolve_right fun hmem => by cases hrest _ hmem
    simp only [List.mem_cons, reduceCtorEq, Effect.heard.injEq, Option.some.injEq, Prod.mk.injEq,
      Effect.dialled.injEq, List.not_mem_nil, or_false, false_or] at hheard hdialled
    obtain ⟨-, rfl, rfl⟩ := hheard
    obtain ⟨-, rfl⟩ := hdialled
    exact sampleClaim_claims
  exact ⟨⟨_, hlog⟩, initiator_hidden samplePrimitives (openingEnv 0x61) sampleConfig openingEvents
    hclaims⟩

/--
A stranger answers with a claim for another address: the third message, with the static key, the
address and the signature of the application, is written before the connection ends.
-/
theorem initiator_shown_to_stranger :
    openingLog 0x62 =
      [.dialled 0 (sampleOnion 0x61), .sent 0 (openingFrames 0x62 7).1,
        .heard 0 (some (sampleClaim 0x62 7, (samplePair 7).pub)),
        .sent 0 (openingFrames 0x62 7).2.2, .teardown 0] ∧
      ¬ InitiatorHidden samplePrimitives (openingLog 0x62) := by
  have hlog : openingLog 0x62 =
      [.dialled 0 (sampleOnion 0x61), .sent 0 (openingFrames 0x62 7).1,
        .heard 0 (some (sampleClaim 0x62 7, (samplePair 7).pub)),
        .sent 0 (openingFrames 0x62 7).2.2, .teardown 0] := by
    decide +kernel
  refine ⟨hlog, fun h => ?_⟩
  obtain ⟨pl, rs, hmem, hclaim⟩ := h.written 0 (sampleOnion 0x61)
    [.dialled 0 (sampleOnion 0x61), .sent 0 (openingFrames 0x62 7).1,
      .heard 0 (some (sampleClaim 0x62 7, (samplePair 7).pub))]
    (openingFrames 0x62 7).2.2 [.teardown 0] _ hlog ⟨[], rfl, by simp⟩ ⟨_, List.mem_cons_self⟩
  simp only [List.mem_cons, reduceCtorEq, Effect.heard.injEq, Option.some.injEq, Prod.mk.injEq,
    List.not_mem_nil, or_false, false_or] at hmem
  obtain ⟨-, rfl, -⟩ := hmem
  exact absurd hclaim.address (by decide +kernel)

end App
end Noxtor
