import Noxtor.App.EventMoves

/-!
# The history of the TOFU prompts

What the log tells about the prompts: which epochs were handed out, which sessions were
accepted, which fingerprints of connections that still exist have been shown.  The
invariant `TofuInv` ties the pending slots and the armed snapshot to that history; it is
kept by every move and by every answer.
-/

namespace Noxtor
namespace App

open ByteString Noise

/-- The sessions that `action_tofu_accept` established. -/
def tofuSessions (log : List Effect) : List (Slot × Key) :=
  log.filterMap fun
    | .tofuSession i key => some (i, key)
    | _ => none

/-- The epochs that `action_tofu_prompt` handed out. -/
def promptEpochs (log : List Effect) : List Nat :=
  log.filterMap fun
    | .tofuPrompt _ epoch _ => some epoch
    | _ => none

/-- The fingerprints that were displayed, with the slots they were displayed for. -/
def shownFps (log : List Effect) : List (Slot × Bytes) :=
  log.filterMap fun
    | .showFp i fp => some (i, fp)
    | _ => none

/-- One step of `liveFps`. -/
def liveStep (l : List (Slot × Bytes)) : Effect → List (Slot × Bytes)
  | .showFp i fp => l ++ [(i, fp)]
  | .teardown i => l.filter fun e => e.1 ≠ i
  | _ => l

/-- The fingerprints that were displayed for connections that have not been torn down since. -/
def liveFps (log : List Effect) : List (Slot × Bytes) :=
  log.foldl liveStep []

section Reading

variable {l l' : List Effect}

@[simp] theorem tofuSessions_append
    (l l' : List Effect) :
    tofuSessions (l ++ l') = tofuSessions l ++ tofuSessions l' :=
  List.filterMap_append

@[simp] theorem promptEpochs_append
    (l l' : List Effect) :
    promptEpochs (l ++ l') = promptEpochs l ++ promptEpochs l' :=
  List.filterMap_append

theorem liveFps_append
    (l l' : List Effect) :
    liveFps (l ++ l') = l'.foldl liveStep (liveFps l) :=
  List.foldl_append

/-- A function that only looks at marks does not see the rest of the log. -/
theorem filterMap_marks
    {α : Type} {f : Effect → Option α} (hf : ∀ e, e.isMark = false → f e = none)
    (log : List Effect) :
    (marks log).filterMap f = log.filterMap f := by
  unfold marks
  induction log with
  | nil =>
      rfl
  | cons e log ih =>
      cases he : e.isMark with
      | true =>
          rw [List.filter_cons_of_pos he, List.filterMap_cons, List.filterMap_cons, ih]
      | false =>
          rw [List.filter_cons_of_neg (by rw [he]; exact Bool.false_ne_true), ih,
            List.filterMap_cons, hf e he]

theorem tofuSessions_marks
    (log : List Effect) :
    tofuSessions (marks log) = tofuSessions log := by
  apply filterMap_marks
  intro e he
  cases e <;> first | rfl | cases he

theorem promptEpochs_marks
    (log : List Effect) :
    promptEpochs (marks log) = promptEpochs log := by
  apply filterMap_marks
  intro e he
  cases e <;> first | rfl | cases he

theorem liveFps_marks
    (log : List Effect) :
    liveFps (marks log) = liveFps log := by
  have hstep : ∀ l, (fun x e => if e.isMark = true then liveStep x e else x) l =
      liveStep l := by
    intro l
    funext e
    cases e <;> rfl
  unfold liveFps marks
  rw [List.foldl_filter, funext hstep]

end Reading

/-- Slot `i` was prompted for with this epoch and key, and not torn down since. -/
def PromptedFor (l : List Effect) (i : Slot) (epoch : Nat) (key : Key) : Prop :=
  ∃ x y, l = x ++ .tofuPrompt i epoch key :: y ∧ .teardown i ∉ y

/--
The last time the snapshot was armed, it was armed with this epoch and key: by the prompt
of slot `i`, or by the answer that showed the fingerprint of slot `i`, prompted for before.
-/
def ArmedFor (l : List Effect) (i : Slot) (epoch : Nat) (key : Key) : Prop :=
  ∃ x y source, l = x ++ .arm source epoch key :: y ∧ (∀ src e k, .arm src e k ∉ y) ∧
    match source with
    | .prompt => ∃ x', x = x' ++ [.tofuPrompt i epoch key]
    | .answer => .tofuPrompt i epoch key ∈ x ∧ ∃ y', y = .showFp i (hex key.toList) :: y'

/-- The key of slot `i` has been shown, and later only keys of other pending slots. -/
def ShownFor (w : World) (i : Slot) : Prop :=
  ∃ x y, liveFps w.marks = x ++ (i, hex (w.slots i).key.toList) :: y ∧
    ∀ e ∈ y, e.1 ≠ i ∧ (w.slots e.1).state = .tofuPending

/-- The slots and the snapshot agree with the history. -/
structure TofuInv (w : World) : Prop where
  epochs : promptEpochs w.marks = List.range' 1 w.epoch
  pending : ∀ i, (w.slots i).state = .tofuPending →
    PromptedFor w.marks i (w.slots i).epoch (w.slots i).key
  armed : w.promptEpoch ≠ 0 → ∃ i, ArmedFor w.marks i w.promptEpoch w.promptFp
  shown : ∀ i, (w.slots i).state = .tofuPending → ShownFor w i

section Keeping

variable {l m : List Effect} {i : Slot} {epoch : Nat} {key : Key}

theorem PromptedFor.append
    (h : PromptedFor l i epoch key) (hm : .teardown i ∉ m) :
    PromptedFor (l ++ m) i epoch key := by
  obtain ⟨x, y, rfl, hy⟩ := h
  refine ⟨x, y ++ m, by simp, ?_⟩
  rw [List.mem_append, not_or]
  exact ⟨hy, hm⟩

theorem PromptedFor.mem
    (h : PromptedFor l i epoch key) :
    .tofuPrompt i epoch key ∈ l := by
  obtain ⟨x, y, rfl, -⟩ := h
  simp

theorem promptEpochs_mem
    (h : .tofuPrompt i epoch key ∈ l) :
    epoch ∈ promptEpochs l :=
  List.mem_filterMap.mpr ⟨_, h, rfl⟩

/-- An epoch that was handed out once belongs to one slot. -/
theorem prompt_unique
    {j : Slot} {key' : Key} (hnodup : (promptEpochs l).Nodup)
    (hi : .tofuPrompt i epoch key ∈ l) (hj : .tofuPrompt j epoch key' ∈ l) :
    i = j := by
  induction l with
  | nil =>
      cases hi
  | cons e l ih =>
      have hcons : promptEpochs (e :: l) = promptEpochs [e] ++ promptEpochs l :=
        promptEpochs_append [e] l
      rw [hcons, List.nodup_append] at hnodup
      obtain ⟨-, hrest, hdisj⟩ := hnodup
      have hhead : ∀ {s k}, .tofuPrompt s epoch k = e → ∀ {s' k'}, .tofuPrompt s' epoch k' ∉ l := by
        rintro s k rfl s' k' hmem
        exact hdisj epoch (List.mem_singleton.mpr rfl) epoch (promptEpochs_mem hmem) rfl
      rcases List.mem_cons.mp hi with hi' | hi'
      · rcases List.mem_cons.mp hj with hj' | hj'
        · rw [← hi'] at hj'
          cases hj'
          rfl
        · exact absurd hj' (hhead hi')
      · rcases List.mem_cons.mp hj with hj' | hj'
        · exact absurd hi' (hhead hj')
        · exact ih hrest hi' hj'

theorem ArmedFor.mem
    (h : ArmedFor l i epoch key) :
    .tofuPrompt i epoch key ∈ l := by
  obtain ⟨x, y, source, rfl, -, hsrc⟩ := h
  cases source with
  | prompt =>
      obtain ⟨x', rfl⟩ := hsrc
      simp
  | answer =>
      exact List.mem_append_left _ hsrc.1

theorem ArmedFor.append
    (h : ArmedFor l i epoch key) (hm : ∀ src e k, .arm src e k ∉ m) :
    ArmedFor (l ++ m) i epoch key := by
  obtain ⟨x, y, source, rfl, hy, hsrc⟩ := h
  refine ⟨x, y ++ m, source, by simp, ?_, ?_⟩
  · intro src e k hmem
    rcases List.mem_append.mp hmem with h | h
    · exact hy src e k h
    · exact hm src e k h
  · cases source with
    | prompt =>
        exact hsrc
    | answer =>
        obtain ⟨hmem, y', rfl⟩ := hsrc
        exact ⟨hmem, y' ++ m, by simp⟩

end Keeping

/-- A move is a prompt, a teardown, or has nothing to do with the prompts. -/
theorem Move.tofu_cases
    {i : Slot} {a b : Life} (h : Move i a b) :
    (a.slot.state ≠ .tofuPending ∧ b.slot.state ≠ .tofuPending ∧ b.marks = a.marks ∧
      b.epoch = a.epoch ∧ b.promptEpoch = a.promptEpoch ∧ b.promptFp = a.promptFp) ∨
    (a.slot.state ≠ .tofuPending ∧ ∃ k, b = a.prompted i k) ∨
    b = a.tornDown i := by
  have hne : ∀ {st : PeerState}, st.Handshaking → st ≠ .tofuPending := by
    rintro st (rfl | rfl) <;> decide
  cases h with
  | connect st fd idx k hidle hst hidx =>
      exact Or.inl ⟨by rw [hidle]; decide, hne hst, rfl, rfl, rfl, rfl⟩
  | turn idx k hst hidx =>
      exact Or.inl ⟨hne hst, hne hst, rfl, rfl, rfl, rfl⟩
  | up k hst =>
      exact Or.inl ⟨hne hst, PeerState.noConfusion, rfl, rfl, rfl, rfl⟩
  | prompt k hst =>
      exact Or.inr (Or.inl ⟨hne hst, k, rfl⟩)
  | rxStart hst =>
      exact Or.inl ⟨by rw [hst]; decide, PeerState.noConfusion, rfl, rfl, rfl, rfl⟩
  | rxDone hst =>
      exact Or.inl ⟨by rw [hst]; decide, PeerState.noConfusion, rfl, rfl, rfl, rfl⟩
  | tx t hst =>
      have : a.slot.state ≠ .tofuPending := by
        rcases hst with hst | hst <;> rw [hst] <;> decide
      exact Or.inl ⟨this, this, rfl, rfl, rfl, rfl⟩
  | torn hst =>
      exact Or.inr (Or.inr rfl)

section Steps

variable {w : World} {i : Slot}

/-- Slots other than `i` are what they were. -/
theorem put_slots
    {a : Life} {j : Slot} (h : j ≠ i) :
    (w.put i a).slots j = w.slots j := by
  simp [World.put, h]

/-- Slot `i` is not pending afterwards, and nothing that concerns the other slots happens. -/
theorem tofuInv_leave
    {a : Life} {m : List Effect} (hinv : TofuInv w) (hst : a.slot.state ≠ .tofuPending)
    (hm : a.marks = w.marks ++ m) (hepochs : promptEpochs m = []) (he : a.epoch = w.epoch)
    (htorn : ∀ j, j ≠ i → .teardown j ∉ m) (harm : ∀ src e k, .arm src e k ∉ m)
    (hsnap : a.promptEpoch = 0 ∨ a.promptEpoch = w.promptEpoch ∧ a.promptFp = w.promptFp)
    (hshown : ∀ j, j ≠ i → (w.slots j).state = .tofuPending → ShownFor (w.put i a) j) :
    TofuInv (w.put i a) := by
  have hother : ∀ j, ((w.put i a).slots j).state = .tofuPending →
      j ≠ i ∧ (w.slots j).state = .tofuPending := by
    intro j hj
    have hji : j ≠ i := by
      rintro rfl
      apply hst
      simpa [World.put] using hj
    rw [put_slots hji] at hj
    exact ⟨hji, hj⟩
  constructor
  · show promptEpochs a.marks = List.range' 1 a.epoch
    rw [hm, he, promptEpochs_append, hepochs, List.append_nil]
    exact hinv.epochs
  · intro j hj
    obtain ⟨hji, hpend⟩ := hother j hj
    rw [put_slots hji]
    show PromptedFor a.marks _ _ _
    rw [hm]
    exact (hinv.pending j hpend).append (htorn j hji)
  · show a.promptEpoch ≠ 0 → ∃ j, ArmedFor a.marks j a.promptEpoch a.promptFp
    intro hne
    rcases hsnap with h0 | ⟨hpe, hpf⟩
    · exact absurd h0 hne
    · rw [hpe] at hne
      rw [hm, hpe, hpf]
      obtain ⟨j, hj⟩ := hinv.armed hne
      exact ⟨j, hj.append harm⟩
  · intro j hj
    obtain ⟨hji, hpend⟩ := hother j hj
    exact hshown j hji hpend

/-- A slot that is not pending and shared data that stay the same. -/
theorem tofuInv_quiet
    {a : Life} (hinv : TofuInv w) (hbefore : (w.slots i).state ≠ .tofuPending)
    (hst : a.slot.state ≠ .tofuPending) (hm : a.marks = w.marks) (he : a.epoch = w.epoch)
    (hpe : a.promptEpoch = w.promptEpoch) (hpf : a.promptFp = w.promptFp) :
    TofuInv (w.put i a) := by
  refine tofuInv_leave (m := []) hinv hst (by rw [hm, List.append_nil]) rfl he
    (fun j _ => List.not_mem_nil) (fun src e k => List.not_mem_nil) (Or.inr ⟨hpe, hpf⟩) ?_
  intro j hji hpend
  obtain ⟨x, y, hxy, hy⟩ := hinv.shown j hpend
  refine ⟨x, y, ?_, ?_⟩
  · rw [put_slots hji]
    show liveFps a.marks = _
    rw [hm]
    exact hxy
  · intro e hmem
    obtain ⟨h1, h2⟩ := hy e hmem
    have hei : e.1 ≠ i := by
      intro hei
      rw [hei] at h2
      exact hbefore h2
    rw [put_slots hei]
    exact ⟨h1, h2⟩

/-- The teardown of a slot takes its fingerprints away and leaves the others. -/
theorem shownFor_torn
    {a : Life} {j : Slot} (hinv : TofuInv w) (hm : a.marks = w.marks ++ [.teardown i])
    (hji : j ≠ i) (hpend : (w.slots j).state = .tofuPending) :
    ShownFor (w.put i a) j := by
  obtain ⟨x, y, hxy, hy⟩ := hinv.shown j hpend
  refine ⟨x.filter fun e => e.1 ≠ i, y.filter fun e => e.1 ≠ i, ?_, ?_⟩
  · rw [put_slots hji]
    show liveFps a.marks = _
    rw [hm, liveFps_append, hxy]
    simp [liveStep, hji]
  · intro e hmem
    rw [List.mem_filter, decide_eq_true_eq] at hmem
    rw [put_slots hmem.2]
    exact hy e hmem.1

theorem tofuInv_torn
    (hinv : TofuInv w) :
    TofuInv (w.put i ((w.view i).tornDown i)) := by
  refine tofuInv_leave (m := [.teardown i]) hinv PeerState.noConfusion rfl rfl rfl ?_ ?_
    (Or.inr ⟨rfl, rfl⟩) (fun j hji => shownFor_torn hinv rfl hji)
  · intro j hji
    simp [hji]
  · simp

theorem tofuInv_closed
    (hinv : TofuInv w) :
    TofuInv (w.put i ((w.view i).closed i)) := by
  refine tofuInv_leave (m := [.teardown i]) hinv PeerState.noConfusion rfl rfl rfl ?_ ?_
    (Or.inl rfl) (fun j hji => shownFor_torn hinv rfl hji)
  · intro j hji
    simp [hji]
  · simp

/-- With the acceptance of the only pending slot nothing is pending any more. -/
theorem tofuInv_accepted
    (hinv : TofuInv w) (honly : ∀ j, (w.slots j).state = .tofuPending ↔ j = i) :
    TofuInv (w.put i ((w.view i).accepted i)) := by
  refine tofuInv_leave (m := [.tofuSession i (w.slots i).key]) hinv PeerState.noConfusion rfl rfl
    rfl ?_ ?_ (Or.inl rfl) ?_
  · simp
  · simp
  · intro j hji hpend
    exact absurd ((honly j).mp hpend) hji

/-- A new prompt: the next epoch, and the snapshot if none is armed. -/
theorem tofuInv_prompted
    (k : Key) (hinv : TofuInv w) (hbefore : (w.slots i).state ≠ .tofuPending) :
    TofuInv (w.put i ((w.view i).prompted i k)) := by
  have hmarks : (w.put i ((w.view i).prompted i k)).marks =
      w.marks ++ promptMarks i (w.view i) k := rfl
  have hslot : (w.put i ((w.view i).prompted i k)).slots i =
      ((w.view i).prompted i k).slot := by
    simp [World.put]
  have htorn : ∀ j, .teardown j ∉ promptMarks i (w.view i) k := by
    intro j
    unfold promptMarks
    split <;> simp
  have hlive : liveFps (w.marks ++ promptMarks i (w.view i) k) =
      liveFps w.marks ++ [(i, hex k.toList)] := by
    rw [liveFps_append]
    unfold promptMarks
    split <;> rfl
  constructor
  · have hnew : promptEpochs (promptMarks i (w.view i) k) = [w.epoch + 1] := by
      unfold promptMarks
      split <;> rfl
    show _ = List.range' 1 (w.epoch + 1)
    rw [hmarks, promptEpochs_append, hnew, hinv.epochs, List.range'_1_concat, Nat.add_comm 1]
  · intro j hj
    by_cases hji : j = i
    · subst hji
      rw [hslot, hmarks]
      refine ⟨w.marks ++ [.showFp j (hex k.toList)],
        if w.promptEpoch = 0 then [.arm .prompt (w.epoch + 1) k] else [], ?_, ?_⟩
      · simp only [promptMarks, List.append_assoc, List.cons_append, List.nil_append]
        rfl
      · split <;> simp
    · rw [put_slots hji] at hj ⊢
      rw [hmarks]
      exact (hinv.pending j hj).append (htorn j)
  · intro hne
    rw [hmarks]
    by_cases h0 : w.promptEpoch = 0
    · have hpe : (w.put i ((w.view i).prompted i k)).promptEpoch = w.epoch + 1 := if_pos h0
      have hpf : (w.put i ((w.view i).prompted i k)).promptFp = k := if_pos h0
      rw [hpe, hpf]
      refine ⟨i, w.marks ++ [.showFp i (hex k.toList), .tofuPrompt i (w.epoch + 1) k], [], .prompt,
        ?_, fun src e k => List.not_mem_nil, w.marks ++ [.showFp i (hex k.toList)], by simp⟩
      have hp : promptMarks i (w.view i) k =
          [.showFp i (hex k.toList), .tofuPrompt i (w.epoch + 1) k] ++
            [.arm .prompt (w.epoch + 1) k] := by
        unfold promptMarks
        rw [if_pos (by exact h0)]
        rfl
      rw [hp, List.append_assoc]
    · have hpe : (w.put i ((w.view i).prompted i k)).promptEpoch = w.promptEpoch := if_neg h0
      have hpf : (w.put i ((w.view i).prompted i k)).promptFp = w.promptFp := if_neg h0
      rw [hpe, hpf]
      obtain ⟨j, hj⟩ := hinv.armed h0
      refine ⟨j, hj.append ?_⟩
      intro src e k'
      unfold promptMarks
      rw [if_neg (by exact h0)]
      simp
  · intro j hj
    by_cases hji : j = i
    · subst hji
      refine ⟨liveFps w.marks, [], ?_, by simp⟩
      rw [hslot, hmarks, hlive]
      rfl
    · rw [put_slots hji] at hj
      obtain ⟨x, y, hxy, hy⟩ := hinv.shown j hj
      refine ⟨x, y ++ [(i, hex k.toList)], ?_, ?_⟩
      · rw [hmarks, hlive, hxy, put_slots hji]
        simp
      · intro e hmem
        rcases List.mem_append.mp hmem with h | h
        · obtain ⟨h1, h2⟩ := hy e h
          have hei : e.1 ≠ i := by
            intro hei
            rw [hei] at h2
            exact hbefore h2
          rw [put_slots hei]
          exact ⟨h1, h2⟩
        · rw [List.mem_singleton] at h
          subst h
          exact ⟨Ne.symm hji, by rw [hslot]; rfl⟩

/-- The snapshot is armed again for the only pending slot. -/
theorem tofuInv_rearmed
    (hinv : TofuInv w) (honly : ∀ j, (w.slots j).state = .tofuPending ↔ j = i) :
    TofuInv (w.put i ((w.view i).rearmed i)) := by
  have hslots : (w.put i ((w.view i).rearmed i)).slots = w.slots := by
    simp [World.put, World.view, Life.rearmed]
  have hmarks : (w.put i ((w.view i).rearmed i)).marks = w.marks ++
      [.arm .answer (w.slots i).epoch (w.slots i).key, .showFp i (hex (w.slots i).key.toList)] := rfl
  have hprompt := hinv.pending i ((honly i).mpr rfl)
  constructor
  · rw [hmarks, promptEpochs_append, hinv.epochs]
    exact List.append_nil _
  · intro j hj
    rw [hslots] at hj ⊢
    rw [hmarks]
    exact (hinv.pending j hj).append (by simp)
  · intro _
    rw [hmarks]
    exact ⟨i, w.marks, [.showFp i (hex (w.slots i).key.toList)], .answer, rfl, by simp,
      hprompt.mem, [], rfl⟩
  · intro j hj
    rw [hslots] at hj
    obtain rfl := (honly j).mp hj
    refine ⟨liveFps w.marks, [], ?_, by simp⟩
    rw [hmarks, liveFps_append, hslots]
    rfl

/-- Every move of a slot keeps the invariant. -/
theorem WorldMove.tofuInv
    {w' : World} (h : WorldMove w w') (hinv : TofuInv w) :
    TofuInv w' := by
  obtain ⟨i, a, hmove, rfl⟩ := h
  rcases hmove.tofu_cases with ⟨hbefore, hst, hm, he, hpe, hpf⟩ | ⟨hbefore, k, rfl⟩ | rfl
  · exact tofuInv_quiet hinv hbefore hst hm he hpe hpf
  · exact tofuInv_prompted k hinv hbefore
  · exact tofuInv_torn hinv

theorem WorldMoves.tofuInv
    {w' : World} (h : WorldMoves w w') (hinv : TofuInv w) :
    TofuInv w' := by
  induction h with
  | refl =>
      exact hinv
  | tail _ hstep ih =>
      exact hstep.tofuInv ih

/-- Every answer keeps the invariant. -/
theorem WorldAnswer.tofuInv
    {w' : World} {yes : Bool} (h : WorldAnswer i yes w w') (hinv : TofuInv w) :
    TofuInv w' := by
  obtain ⟨honly, a, hans, rfl⟩ := h
  cases hans with
  | rearm _ =>
      exact tofuInv_rearmed hinv honly
  | accept _ =>
      exact tofuInv_accepted hinv honly
  | close yes =>
      exact tofuInv_closed hinv

/-- Moves accept no session. -/
theorem WorldMoves.tofuSessions_eq
    {w' : World} (h : WorldMoves w w') :
    tofuSessions w'.marks = tofuSessions w.marks := by
  induction h with
  | refl =>
      rfl
  | tail _ hstep ih =>
      obtain ⟨i, a, hmove, rfl⟩ := hstep
      rw [← ih]
      rcases hmove.tofu_cases with ⟨-, -, hm, -⟩ | ⟨-, k, rfl⟩ | rfl
      · exact congrArg _ hm
      · show tofuSessions (_ ++ promptMarks _ _ _) = _
        rw [tofuSessions_append]
        unfold promptMarks
        split <;> exact List.append_nil _
      · show tofuSessions (_ ++ [.teardown _]) = _
        rw [tofuSessions_append]
        exact List.append_nil _

end Steps

section Runs

variable {P : Primitives} {E : Env} {s : AppState}

theorem appStep_tofuInv
    (ev : AppEvent) (hok : (world s).Ok) (hinv : TofuInv (world s)) :
    TofuInv (world (appStep P E s ev)) := by
  rcases appStep_cases (P := P) (E := E) ev hok with h | ⟨text, i, -, -, -, -, h⟩
  · exact h.tofuInv hinv
  · exact h.tofuInv hinv

/-- The invariant holds after every run. -/
theorem appRun_tofuInv
    (evs : List AppEvent) (hok : (world s).Ok) (hinv : TofuInv (world s)) :
    TofuInv (world (appRun P E s evs)) := by
  induction evs generalizing s with
  | nil =>
      exact hinv
  | cons ev evs ih =>
      rw [appRun_cons]
      exact ih (appStep_ok ev hok) (appStep_tofuInv ev hok hinv)

theorem initialState_tofuInv
    (c : Config) :
    TofuInv (world (initialState c)) := by
  constructor
  · rfl
  · intro i hi
    cases hi
  · intro h
    exact absurd rfl h
  · intro i hi
    cases hi

end Runs

end App
end Noxtor
