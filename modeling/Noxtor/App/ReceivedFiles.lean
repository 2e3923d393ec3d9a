import Noxtor.App.QueueConfidentiality
import Noxtor.Lib.Directory

/-!
# Received files are whole or absent

The files that `open_recv_file` creates, as the log of a run tells them: who has created a
file and on which METADATA record, what has been written to it and by whom, whether it has
been deleted.  At every boundary of the event loop such a file is the one that a slot is
receiving, with as many bytes as the slot has counted, or it has the size and the hash that
were announced for it.

That `openat` with `O_EXCL` does not create a file that exists is an assumption on the
environment, and so is that nobody else touches the directory.
-/

namespace Noxtor
namespace App

open ByteString Noise Directory

/-- What an effect does to the downloads directory. -/
def Effect.fileOp : Effect → Option (Op Slot Bytes UInt8)
  | .fileCreate i name => some (.create i name)
  | .fileWrite i name data => some (.write i name data)
  | .fileUnlink i name => some (.unlink i name)
  | .fileDone i name => some (.close i name)
  | _ => none

/-- What a run has done to the downloads directory. -/
def fileOps (log : List Effect) : List (Op Slot Bytes UInt8) :=
  log.filterMap Effect.fileOp

/-- The last file of this name was created by slot `i`, on the METADATA record `pt`. -/
def CreatedOn (log : List Effect) (i : Slot) (name pt : Bytes) : Prop :=
  ∃ pre post, log = pre ++ .fileRecord i pt :: .fileCreate i name :: post ∧
    ∀ e ∈ post, ∀ j, e ≠ .fileCreate j name

/-- The file has the size and the hash that were announced for it. -/
def Whole (P : Primitives) (log : List Effect) (name content : Bytes) : Prop :=
  ∃ i pt size hash, CreatedOn log i name pt ∧ Announces pt size hash ∧
    content.length = size ∧ P.generichash (be64 size ++ content) = hash

/-- The slot is receiving the file. -/
def Receiving (s : AppState) (i : Slot) (name : Bytes) : Prop :=
  (s.peers i).rxFile.active = true ∧ (s.peers i).rxFile.localName = name

/-- What is asked of the received files; `start` is the directory before the run. -/
structure WholeOrAbsent (P : Primitives) (start : Bytes → Option Bytes) (s : AppState) : Prop where
  files : ∀ i name data, .fileCreate i name ∈ s.sh.log →
    content start (fileOps s.sh.log) name = some data →
    (∃ j, (∀ k, Receiving s k name ↔ k = j) ∧
      data.length = (s.peers j).rxFile.receivedBytes ∧
      (s.peers j).rxFile.receivedBytes < (s.peers j).rxFile.expectedSize) ∨
    ((∀ k, ¬ Receiving s k name) ∧ Whole P s.sh.log name data)
  orderly : Orderly (fileOps s.sh.log)
  counters : ∀ i, (s.peers i).rxFile.receivedBytes ≤ (s.peers i).rxFile.expectedSize

section History

variable {P : Primitives} {log es : List Effect} {i : Slot} {name pt content : Bytes}

theorem fileOps_append
    (log es : List Effect) :
    fileOps (log ++ es) = fileOps log ++ fileOps es :=
  List.filterMap_append

theorem fileOps_quiet
    (hes : ∀ e ∈ es, e.fileOp = none) :
    fileOps (log ++ es) = fileOps log := by
  rw [fileOps_append, fileOps, fileOps, List.filterMap_eq_nil_iff.mpr hes, List.append_nil]

theorem mem_fileOps_create :
    .create i name ∈ fileOps log ↔ .fileCreate i name ∈ log := by
  rw [fileOps, List.mem_filterMap]
  constructor
  · rintro ⟨e, he, hop⟩
    cases e <;> simp [Effect.fileOp] at hop
    obtain ⟨rfl, rfl⟩ := hop
    exact he
  · intro h
    exact ⟨_, h, rfl⟩

theorem CreatedOn.append
    (h : CreatedOn log i name pt) (hes : ∀ e ∈ es, ∀ j, e ≠ .fileCreate j name) :
    CreatedOn (log ++ es) i name pt := by
  obtain ⟨pre, post, rfl, hpost⟩ := h
  refine ⟨pre, post ++ es, by simp, fun e he => ?_⟩
  obtain he | he := List.mem_append.mp he
  · exact hpost e he
  · exact hes e he

theorem Whole.append
    (h : Whole P log name content) (hes : ∀ e ∈ es, ∀ j, e ≠ .fileCreate j name) :
    Whole P (log ++ es) name content := by
  obtain ⟨i, pt, size, hash, hcreated, hrest⟩ := h
  exact ⟨i, pt, size, hash, hcreated.append hes, hrest⟩

theorem no_create_of_quiet
    (hes : ∀ e ∈ es, e.fileOp = none) (name : Bytes) :
    ∀ e ∈ es, ∀ j, e ≠ .fileCreate j name := by
  rintro e he j rfl
  cases hes _ he

end History

/-- The file that a slot holds open, with what it has hashed of it. -/
def FileRx.held (rx : FileRx) : Option (Bytes × Bytes) :=
  if rx.active then some (rx.localName, rx.hashState.drop 8) else none

/-- The counters, and for a transfer the file, the announcement and the hash so far. -/
structure RxOk (log : List Effect) (dirFd : Int) (i : Slot) (rx : FileRx) : Prop where
  bound : rx.receivedBytes ≤ rx.expectedSize
  named : rx.active = true → rx.localName ≠ [] ∧ dirFd ≥ 0
  hashed : rx.active = true → ∃ data, rx.hashState = be64 rx.expectedSize ++ data ∧
    data.length = rx.receivedBytes ∧ rx.receivedBytes < rx.expectedSize
  announced : rx.active = true → ∃ pt, CreatedOn log i rx.localName pt ∧
    Announces pt rx.expectedSize rx.expectedHash

/-- What holds of the received files. -/
structure FilesOk (P : Primitives) (start : Bytes → Option Bytes) (s : AppState) : Prop where
  kept : Kept start (Whole P s.sh.log) (fileOps s.sh.log) fun i => (s.peers i).rxFile.held
  rx : ∀ i, RxOk s.sh.log s.sh.downloadsDirFd i (s.peers i).rxFile

section Invariant

variable {P : Primitives} {E : Env} {start : Bytes → Option Bytes} {s : AppState} {i : Slot}
  {v : View} {log es : List Effect} {dirFd : Int} {rx rx' : FileRx}

theorem FileRx.held_inactive (h : rx.active = false) : rx.held = none := by
  simp [FileRx.held, h]

theorem FileRx.core_counters (rx : FileRx) :
    rx.core.active = rx.active ∧ rx.core.receivedBytes = rx.receivedBytes ∧
      rx.core.expectedSize = rx.expectedSize := by
  unfold FileRx.core
  split
  · exact ⟨rfl, rfl, rfl⟩
  · rename_i h
    exact ⟨by simp [h], rfl, rfl⟩

theorem FileRx.core_transfer (h : rx.active = true) :
    rx.core.localName = rx.localName ∧ rx.core.hashState = rx.hashState ∧
      rx.core.expectedHash = rx.expectedHash := by
  simp [FileRx.core, h]

theorem FileRx.held_core (rx : FileRx) : rx.core.held = rx.held := by
  unfold FileRx.held
  rw [rx.core_counters.1]
  split
  · rename_i h
    rw [(FileRx.core_transfer h).1, (FileRx.core_transfer h).2.1]
  · rfl

theorem RxOk.append
    (h : RxOk log dirFd i rx)
    (hes : rx.active = true → ∀ e ∈ es, ∀ j, e ≠ .fileCreate j rx.localName) :
    RxOk (log ++ es) dirFd i rx := by
  refine ⟨h.bound, h.named, h.hashed, fun hact => ?_⟩
  obtain ⟨pt, hcreated, hann⟩ := h.announced hact
  exact ⟨pt, hcreated.append (hes hact), hann⟩

theorem RxOk.inactive
    (hact : rx.active = false) (hbound : rx.receivedBytes ≤ rx.expectedSize) :
    RxOk log dirFd i rx := by
  refine ⟨hbound, fun h => ?_, fun h => ?_, fun h => ?_⟩
  · exact absurd (hact.symm.trans h) (by decide)
  · exact absurd (hact.symm.trans h) (by decide)
  · exact absurd (hact.symm.trans h) (by decide)

/-- Only the core of the transfer counts. -/
theorem RxOk.of_core
    (h : RxOk log dirFd i rx) (hcore : rx'.core = rx.core) :
    RxOk log dirFd i rx' := by
  obtain ⟨h1, h2, h3⟩ := rx.core_counters
  obtain ⟨h1', h2', h3'⟩ := rx'.core_counters
  rw [hcore] at h1' h2' h3'
  rw [h1] at h1'
  rw [h2] at h2'
  rw [h3] at h3'
  cases hact : rx.active with
  | false =>
      rw [hact] at h1'
      apply RxOk.inactive h1'.symm
      rw [← h2', ← h3']
      exact h.bound
  | true =>
      rw [hact] at h1'
      obtain ⟨h4, h5, h6⟩ := FileRx.core_transfer h1'.symm
      rw [hcore, (FileRx.core_transfer hact).1] at h4
      rw [hcore, (FileRx.core_transfer hact).2.1] at h5
      rw [hcore, (FileRx.core_transfer hact).2.2] at h6
      obtain ⟨hb, hn, hh, ha⟩ := h
      rw [h2', h3'] at hb
      rw [h4] at hn
      rw [h2', h3', h5] at hh
      rw [h3', h4, h6] at ha
      exact ⟨hb, fun _ => hn hact, fun _ => hh hact, fun _ => ha hact⟩

/-- What the directory holds of the file that a slot receives. -/
theorem FilesOk.transfer
    (h : FilesOk P start s) (hact : (s.peers i).rxFile.active = true) :
    ∃ data, (s.peers i).rxFile.held = some ((s.peers i).rxFile.localName, data) ∧
      content start (fileOps s.sh.log) (s.peers i).rxFile.localName = some data ∧
      (s.peers i).rxFile.hashState = be64 (s.peers i).rxFile.expectedSize ++ data ∧
      data.length = (s.peers i).rxFile.receivedBytes := by
  obtain ⟨data, hstate, hlen, -⟩ := (h.rx i).hashed hact
  have hheld : (s.peers i).rxFile.held = some ((s.peers i).rxFile.localName, data) := by
    rw [FileRx.held, if_pos hact, hstate]
    have hdrop : (be64 (s.peers i).rxFile.expectedSize ++ data).drop 8 = data :=
      List.drop_left' (be64_length _)
    rw [hdrop]
  exact ⟨data, hheld, (h.kept.holds i _ data hheld).2, hstate, hlen⟩

/-- A change of slot `i` alone, once the directory and the slot are accounted for. -/
theorem FilesOk.put
    (h : FilesOk P start s) (hdir : v.sh.downloadsDirFd = s.sh.downloadsDirFd)
    (hlog : v.sh.log = s.sh.log ++ es)
    (hnew : ∀ k, k ≠ i → (s.peers k).rxFile.active = true → ∀ e ∈ es, ∀ j,
      e ≠ .fileCreate j (s.peers k).rxFile.localName)
    (hkept : ∀ held', (∀ k, k ≠ i → held' k = (s.peers k).rxFile.held) →
      held' i = v.ps.rxFile.held →
      Kept start (Whole P (s.sh.log ++ es)) (fileOps (s.sh.log ++ es)) held')
    (hrx : RxOk (s.sh.log ++ es) s.sh.downloadsDirFd i v.ps.rxFile) :
    FilesOk P start (s.put i v) := by
  have hsh : (s.put i v).sh = v.sh := s.put_sh i v
  constructor
  · rw [hsh, hlog]
    apply hkept
    · intro k hk
      rw [AppState.put_peers_ne s v hk]
    · rw [AppState.put_peers_same]
  · intro k
    rw [hsh, hlog, hdir]
    by_cases hk : k = i
    · subst hk
      rw [AppState.put_peers_same]
      exact hrx
    · rw [AppState.put_peers_ne s v hk]
      exact (h.rx k).append (hnew k hk)

/-- Nothing happens to the files. -/
theorem FilesOk.quiet
    (h : FilesOk P start s) (hcore : v.ps.rxFile.core = (s.peers i).rxFile.core)
    (hdir : v.sh.downloadsDirFd = s.sh.downloadsDirFd)
    (hlog : v.sh.log = s.sh.log ++ es) (hes : ∀ e ∈ es, e.fileOp = none) :
    FilesOk P start (s.put i v) := by
  refine h.put hdir hlog (fun k _ _ => no_create_of_quiet hes _) (fun held' hother hheld => ?_) ?_
  · rw [fileOps_quiet hes]
    refine h.kept.same (fun k => ?_) (fun n d hw => hw.append (no_create_of_quiet hes n))
    by_cases hk : k = i
    · subst hk
      rw [hheld, ← FileRx.held_core, hcore, FileRx.held_core]
    · exact hother k hk
  · exact ((h.rx i).append fun _ => no_create_of_quiet hes _).of_core hcore

/-- A slot creates a file, whatever it does with it in the same part of the loop. -/
theorem FilesOk.fresh
    {name : Bytes} {rest : List Effect} (h : FilesOk P start s)
    (hexcl : Exclusive start (fileOps (s.sh.log ++ .fileCreate i name :: rest)))
    {k : Slot} (hact : (s.peers k).rxFile.active = true) :
    name ≠ (s.peers k).rxFile.localName := by
  rintro rfl
  obtain ⟨data, -, hcontent, -⟩ := h.transfer hact
  have hnone := hexcl (fileOps s.sh.log) i (s.peers k).rxFile.localName (fileOps rest)
    (by rw [fileOps_append]; rfl)
  rw [hcontent] at hnone
  cases hnone

/-- The directory behind the creation of a file. -/
theorem FilesOk.created
    {name : Bytes} {rest : List Effect} (held' : Slot → Option (Bytes × Bytes))
    (h : FilesOk P start s) (hrx : (s.peers i).rxFile.active = false)
    (hexcl : Exclusive start (fileOps (s.sh.log ++ .fileCreate i name :: rest)))
    (hother : ∀ k, k ≠ i → held' k = (s.peers k).rxFile.held)
    (hheld : held' i = some (name, [])) :
    Kept start (Whole P (s.sh.log ++ [.fileCreate i name]))
      (fileOps (s.sh.log ++ [.fileCreate i name])) held' := by
  rw [fileOps_append]
  refine h.kept.opened hother ?_ (FileRx.held_inactive hrx) hheld (fun n d hn hw => ?_)
  · refine Exclusive.before (?_ : Exclusive start (_ ++ fileOps rest))
    rw [fileOps_append] at hexcl
    rw [List.append_assoc]
    exact hexcl
  · apply hw.append
    intro e he j heq
    rw [List.mem_singleton.mp he] at heq
    cases heq
    exact hn rfl

theorem FilesOk.rxOpened
    {pt name : Bytes} {size : Nat} {hash : Block 32} (h : FilesOk P start s)
    (hexcl : Exclusive start (fileOps (s.sh.log ++ [.fileCreate i name])))
    (hrx : (s.peers i).rxFile.active = false) (hdir : s.sh.downloadsDirFd ≥ 0) (hname : name ≠ [])
    (hrec : ∃ pre, s.sh.log = pre ++ [.fileRecord i pt]) (hann : Announces pt size hash)
    (hsize : 0 < size) (hv : v.ps.rxFile = newRx name size hash)
    (hvdir : v.sh.downloadsDirFd = s.sh.downloadsDirFd)
    (hvlog : v.sh.log = s.sh.log ++ [.fileCreate i name]) :
    FilesOk P start (s.put i v) := by
  refine h.put hvdir hvlog (fun k hk hact e he j heq => ?_) (fun held' hother hheld => ?_) ?_
  · rw [List.mem_singleton.mp he] at heq
    cases heq
    exact h.fresh hexcl hact rfl
  · refine h.created _ hrx hexcl hother ?_
    have hact : (newRx name size hash).active = true := rfl
    rw [hheld, hv, FileRx.held, if_pos hact]
    have hdrop : (newRx name size hash).hashState.drop 8 = [] := by
      rw [newRx, ← be64_length size, List.drop_length]
    rw [hdrop]
    rfl
  · rw [hv]
    refine ⟨Nat.zero_le _, fun _ => ⟨hname, hdir⟩, fun _ => ?_, fun _ => ?_⟩
    · exact ⟨[], (List.append_nil _).symm, rfl, hsize⟩
    · obtain ⟨pre, hpre⟩ := hrec
      refine ⟨pt, ⟨pre, [], ?_, fun e he => absurd he List.not_mem_nil⟩, hann⟩
      rw [hpre, List.append_assoc]
      rfl

theorem FilesOk.rxStillborn
    {name : Bytes} (h : FilesOk P start s)
    (hexcl : Exclusive start (fileOps (s.sh.log ++ [.fileCreate i name, .fileUnlink i name])))
    (hrx : (s.peers i).rxFile.active = false) (hv : v.ps.rxFile = (s.peers i).rxFile)
    (hvdir : v.sh.downloadsDirFd = s.sh.downloadsDirFd)
    (hvlog : v.sh.log = s.sh.log ++ [.fileCreate i name, .fileUnlink i name]) :
    FilesOk P start (s.put i v) := by
  refine h.put hvdir hvlog (fun k hk hact e he j heq => ?_) (fun held' hother hheld => ?_) ?_
  · simp only [heq, List.mem_cons, Effect.fileCreate.injEq, reduceCtorEq, List.not_mem_nil,
      or_false] at he
    exact h.fresh hexcl hact he.2.symm
  · -- for a moment the slot holds the new file
    have hopen := h.created (Function.update held' i (some (name, []))) hrx hexcl
      (fun k hk => by rw [Function.update_of_ne hk, hother k hk]) (Function.update_self i _ held')
    have happ : s.sh.log ++ [.fileCreate i name, .fileUnlink i name] =
        (s.sh.log ++ [.fileCreate i name]) ++ [.fileUnlink i name] := by
      rw [List.append_assoc]
      rfl
    rw [happ, fileOps_append _ [.fileUnlink i name]]
    refine hopen.dropped (i := i) (fun k hk => (Function.update_of_ne hk _ _).symm)
      (Function.update_self i _ held') ?_ (fun n d _ hw => hw.append (by simp))
    rw [hheld, hv]
    exact FileRx.held_inactive hrx
  · rw [hv]
    exact .inactive hrx (h.rx i).bound

theorem FilesOk.rxGrown
    {data : Bytes} (h : FilesOk P start s) (hrx : (s.peers i).rxFile.active = true)
    (hmore : (s.peers i).rxFile.receivedBytes + data.length < (s.peers i).rxFile.expectedSize)
    (hv : v.ps.rxFile = (s.peers i).rxFile.grow data)
    (hvdir : v.sh.downloadsDirFd = s.sh.downloadsDirFd)
    (hvlog : v.sh.log = s.sh.log ++ [.fileWrite i (s.peers i).rxFile.localName data]) :
    FilesOk P start (s.put i v) := by
  obtain ⟨old, hold, -, hstate, hlen⟩ := h.transfer hrx
  refine h.put hvdir hvlog (fun k hk hact => by simp) (fun held' hother hheld => ?_) ?_
  · rw [fileOps_append]
    refine h.kept.wrote hother hold ?_ (fun n d _ hw => hw.append (by simp))
    rw [hheld, hv, FileRx.held, FileRx.grow, hstate, if_pos hrx, List.append_assoc,
      List.drop_left' (be64_length _)]
  · rw [hv]
    refine ⟨Nat.le_of_lt hmore, (h.rx i).named, fun _ => ?_, fun _ => ?_⟩
    · refine ⟨old ++ data, ?_, ?_, hmore⟩
      · simp only [FileRx.grow, hstate, List.append_assoc]
      · simp only [FileRx.grow, List.length_append, hlen]
    · obtain ⟨pt, hcreated, hann⟩ := (h.rx i).announced hrx
      exact ⟨pt, hcreated.append (by simp), hann⟩

theorem FilesOk.rxCompleted
    {data : Bytes} (h : FilesOk P start s) (hrx : (s.peers i).rxFile.active = true)
    (hall : (s.peers i).rxFile.receivedBytes + data.length = (s.peers i).rxFile.expectedSize)
    (hhash : P.generichash ((s.peers i).rxFile.hashState ++ data) =
      (s.peers i).rxFile.expectedHash)
    (hv : v.ps.rxFile = {}) (hvdir : v.sh.downloadsDirFd = s.sh.downloadsDirFd)
    (hvlog : v.sh.log = s.sh.log ++ [.fileWrite i (s.peers i).rxFile.localName data,
      .fileDone i (s.peers i).rxFile.localName]) :
    FilesOk P start (s.put i v) := by
  obtain ⟨old, hold, -, hstate, hlen⟩ := h.transfer hrx
  obtain ⟨pt, hcreated, hann⟩ := (h.rx i).announced hrx
  refine h.put hvdir hvlog (fun k hk hact => by simp) (fun held' hother hheld => ?_) ?_
  · generalize (s.peers i).rxFile.localName = name at hold hcreated ⊢
    have hwrote : Kept start (Whole P s.sh.log) (fileOps s.sh.log ++ [.write i name data])
        (Function.update held' i (some (name, old ++ data))) := h.kept.wrote
      (fun k hk => by rw [Function.update_of_ne hk, hother k hk]) hold
      (Function.update_self i _ held') (fun n d _ hw => hw)
    have hops : fileOps (s.sh.log ++ [.fileWrite i name data, .fileDone i name]) =
        fileOps s.sh.log ++ [.write i name data] ++ [.close i name] := by
      rw [fileOps_append, List.append_assoc]
      rfl
    rw [hops]
    refine hwrote.closed (i := i) (fun k hk => (Function.update_of_ne hk _ _).symm)
      (Function.update_self i _ held') ?_ (fun n d _ hw => hw.append (by simp)) ?_
    · rw [hheld, hv]
      rfl
    · refine ⟨i, pt, (s.peers i).rxFile.expectedSize, (s.peers i).rxFile.expectedHash,
        hcreated.append (by simp), hann, ?_, ?_⟩
      · rw [List.length_append, hlen, hall]
      · rw [← List.append_assoc, ← hstate]
        exact hhash
  · rw [hv]
    exact .inactive rfl (Nat.zero_le _)

/-- Writes to the file that a slot holds. -/
theorem FilesOk.writes
    {name : Bytes} {ws : List Effect} (h : FilesOk P start s)
    (hrx : (s.peers i).rxFile.active = true) (hname : name = (s.peers i).rxFile.localName)
    (hws : ∀ e ∈ ws, ∃ data, e = .fileWrite i name data) :
    ∃ held' data, (∀ k, k ≠ i → held' k = (s.peers k).rxFile.held) ∧
      held' i = some (name, data) ∧
      Kept start (Whole P s.sh.log) (fileOps (s.sh.log ++ ws)) held' := by
  induction ws using List.reverseRecOn with
  | nil =>
      obtain ⟨old, hold, -⟩ := h.transfer hrx
      rw [← hname] at hold
      rw [List.append_nil]
      exact ⟨_, old, fun k _ => rfl, hold, h.kept⟩
  | append_singleton ws e ih =>
      obtain ⟨held', old, hother, hheld, hkept⟩ :=
        ih fun e' he' => hws e' (List.mem_append_left _ he')
      obtain ⟨data, rfl⟩ := hws e (List.mem_append_right _ List.mem_cons_self)
      refine ⟨Function.update held' i (some (name, old ++ data)), old ++ data, fun k hk => ?_,
        Function.update_self i _ held', ?_⟩
      · rw [Function.update_of_ne hk, hother k hk]
      · rw [← List.append_assoc, fileOps_append]
        exact hkept.wrote (fun k hk => Function.update_of_ne hk _ _) hheld
          (Function.update_self i _ held') (fun n d _ hw => hw)

/-- The transfer is given up and what has been received is deleted. -/
theorem FilesOk.ended
    (ws rest : List Effect) (h : FilesOk P start s) (hrx : (s.peers i).rxFile.active = true)
    (hws : ∀ e ∈ ws, ∃ data, e = .fileWrite i (s.peers i).rxFile.localName data)
    (hrest : ∀ e ∈ rest, e.fileOp = none)
    (hact : v.ps.rxFile.active = false)
    (hbound : v.ps.rxFile.receivedBytes ≤ v.ps.rxFile.expectedSize)
    (hvdir : v.sh.downloadsDirFd = s.sh.downloadsDirFd)
    (hvlog : v.sh.log = s.sh.log ++
      (ws ++ [.fileUnlink i (s.peers i).rxFile.localName] ++ rest)) :
    FilesOk P start (s.put i v) := by
  have hno : ∀ name, ∀ e ∈ ws ++ [.fileUnlink i (s.peers i).rxFile.localName] ++ rest, ∀ j,
      e ≠ .fileCreate j name := by
    rintro name e he j rfl
    simp only [List.mem_append, List.mem_singleton, reduceCtorEq, or_false] at he
    obtain he | he := he
    · obtain ⟨data, hdata⟩ := hws _ he
      cases hdata
    · exact no_create_of_quiet hrest name _ he j rfl
  refine h.put hvdir hvlog (fun k _ _ => hno _) (fun held' hother hheld => ?_) ?_
  · obtain ⟨mid, data, hmid, hmidi, hkept⟩ := h.writes hrx rfl hws
    have hops : fileOps (s.sh.log ++ (ws ++ [.fileUnlink i (s.peers i).rxFile.localName] ++ rest)) =
        fileOps (s.sh.log ++ ws) ++ [.unlink i (s.peers i).rxFile.localName] := by
      rw [← List.append_assoc, ← List.append_assoc, fileOps_quiet hrest, fileOps_append _ [_]]
      rfl
    rw [hops]
    refine hkept.dropped (fun k hk => (hother k hk).trans (hmid k hk).symm) hmidi ?_
      (fun n d _ hw => hw.append (hno n))
    rw [hheld]
    exact FileRx.held_inactive hact
  · exact .inactive hact hbound

/-- What is being received is deleted, since its name is known. -/
theorem FilesOk.unlinkPartial
    (h : FilesOk P start s) (hrx : (s.peers i).rxFile.active = true) :
    App.unlinkPartial i (s.view i) = [.fileUnlink i (s.peers i).rxFile.localName] := by
  obtain ⟨hname, hdir⟩ := (h.rx i).named hrx
  exact if_pos ⟨hrx, hdir, hname⟩

theorem FilesOk.torn
    (h : FilesOk P start s) :
    FilesOk P start (s.put i (tornDown i (s.view i))) := by
  have hlog : (tornDown i (s.view i)).sh.log =
      s.sh.log ++ App.unlinkPartial i (s.view i) ++ [.teardown i] := rfl
  have hrx : (tornDown i (s.view i)).ps.rxFile =
      if (s.peers i).rxFile.active then { fd := -1 } else (s.peers i).rxFile := rfl
  cases hact : (s.peers i).rxFile.active with
  | true =>
      rw [if_pos hact] at hrx
      rw [h.unlinkPartial hact, List.append_assoc] at hlog
      refine h.ended [] [.teardown i] hact (fun e he => absurd he List.not_mem_nil)
        (by simp [Effect.fileOp]) (by rw [hrx]) (by rw [hrx]) rfl hlog
  | false =>
      rw [if_neg (by rw [hact]; decide)] at hrx
      have hnone : App.unlinkPartial i (s.view i) = [] :=
        if_neg (fun hall => absurd (hact.symm.trans hall.1) (by decide))
      rw [hnone, List.append_nil] at hlog
      exact h.quiet (by rw [hrx]) rfl hlog (by simp [Effect.fileOp])

/-- A deed that has been seen in the log keeps the invariant. -/
theorem Deed.filesOk
    {cmd : Cmd} (h : FilesOk P start s) (hdeed : Deed P E cmd i (s.view i) v)
    (hexcl : Exclusive start (fileOps v.sh.log)) :
    FilesOk P start (s.put i v) := by
  have hsame : ∀ u : View, u.ps.rxFile = (s.peers i).rxFile →
      u.sh.downloadsDirFd = s.sh.downloadsDirFd → u.sh.log = s.sh.log →
      FilesOk P start (s.put i u) := by
    intro u hrx hdir hlog
    have hlog' : u.sh.log = s.sh.log ++ [] := by rw [hlog, List.append_nil]
    exact h.quiet (by rw [hrx]) hdir hlog'
      (fun e he => absurd he List.not_mem_nil)
  cases hdeed with
  | minor hminor =>
      obtain ⟨es, hlog, hes⟩ := hminor.log
      have hcore : v.ps.core.rxFile = (s.view i).ps.core.rxFile := by
        rw [hminor.ps]
      have hdir : v.sh.core.downloadsDirFd = (s.view i).sh.core.downloadsDirFd := by
        rw [hminor.sh]
      refine h.quiet hcore hdir hlog (fun e he => ?_)
      have hmin := hes e he
      cases e <;> first | rfl | cases hmin
  | torn _ => exact h.torn
  | misheard _ _ =>
      have hheard : FilesOk P start (s.put i ((s.view i).emit [.heard i none])) :=
        h.quiet rfl rfl rfl (by simp [Effect.fileOp])
      have htorn := hheard.torn (i := i)
      rw [AppState.view_put_same, AppState.put_put] at htorn
      exact htorn
  | dialled _ _ _ _ => exact h.quiet rfl rfl rfl (by simp [Effect.fileOp])
  | greet _ _ _ _ => exact h.quiet rfl rfl rfl (by simp [Effect.fileOp])
  | sent _ _ => exact h.quiet rfl rfl rfl (by simp [Effect.fileOp])
  | heard _ _ _ _ => exact h.quiet rfl rfl rfl (by simp [Effect.fileOp])
  | replied _ _ _ _ _ => exact h.quiet rfl rfl rfl (by simp [Effect.fileOp])
  | answered _ _ _ => exact hsame _ rfl rfl rfl
  | chosen _ _ => exact hsame _ rfl rfl rfl
  | looked onion =>
      unfold dbGetContact
      split
      · exact h.quiet rfl rfl rfl (by simp [Effect.fileOp])
      · exact h.quiet rfl rfl rfl (by simp [Effect.fileOp])
  | recognised _ _ _ _ _ _ _ _ _ => exact h.quiet rfl rfl rfl (by simp [Effect.fileOp])
  | warned _ _ _ _ _ _ _ _ _ _ => exact h.quiet rfl rfl rfl (by simp [Effect.fileOp])
  | greeted _ _ _ _ _ _ _ _ =>
      refine h.quiet rfl rfl rfl ?_
      split <;> simp [Effect.fileOp]
  | known _ _ _ _ _ _ _ _ _ _ _ _ => exact h.quiet rfl rfl rfl (by simp [Effect.fileOp])
  | prompted _ _ _ _ _ _ _ _ _ _ => exact hsame _ rfl rfl rfl
  | saved _ _ _ _ _ => exact h.quiet rfl rfl rfl (by simp [Effect.fileOp])
  | accepted _ _ _ _ _ _ _ _ => exact h.quiet rfl rfl rfl (by simp [Effect.fileOp])
  | added _ _ _ => exact h.quiet rfl rfl rfl (by simp [Effect.fileOp])
  | queued _ _ _ _ _ _ => exact h.quiet rfl rfl rfl (by simp [Effect.fileOp])
  | rxCleared hrx =>
      have hno : ∀ e ∈ ([] : List Effect), ∀ k j,
          e ≠ .fileCreate j (s.peers k).rxFile.localName :=
        fun e he => absurd he List.not_mem_nil
      refine h.put rfl (List.append_nil _).symm (fun k _ _ e he => hno e he k)
        (fun held' hother hheld => ?_) (.inactive rfl (Nat.zero_le _))
      rw [List.append_nil]
      refine h.kept.same (fun k => ?_) (fun _ _ hw => hw)
      by_cases hk : k = i
      · subst hk
        rw [hheld]
        exact (FileRx.held_inactive hrx).symm
      · exact hother k hk
  | rxOpened pt name size hash _ hrx hdir hname hrec hann hsize =>
      exact h.rxOpened hexcl hrx hdir hname hrec hann hsize rfl rfl rfl
  | rxStillborn name _ hrx => exact h.rxStillborn hexcl hrx rfl rfl rfl
  | rxGrown data _ hrx hmore => exact h.rxGrown hrx hmore rfl rfl rfl
  | rxCompleted data _ hrx hall hhash => exact h.rxCompleted hrx hall hhash rfl rfl rfl
  | rxDropped ws es' _ hrx hws hun =>
      have hes' : es' = [.fileUnlink i (s.peers i).rxFile.localName] := by
        rcases hun with hun | hun
        · rw [hun]
          exact h.unlinkPartial hrx
        · exact hun
      subst hes'
      exact h.ended _ [] hrx hws (fun e he => absurd he List.not_mem_nil) rfl
        (Nat.zero_le _) rfl (by rw [List.append_nil]; rfl)
  | forgot => exact hsame _ rfl rfl rfl

end Invariant

section Runs

variable {P : Primitives} {E : Env}

theorem initialState_filesOk
    (start : Bytes → Option Bytes) (c : Config) :
    FilesOk P start (initialState c) :=
  ⟨Kept.nil start _, fun _ => .inactive rfl (Nat.zero_le _)⟩

theorem appRun_filesOk
    (start : Bytes → Option Bytes) (c : Config) (evs : List AppEvent)
    (hexcl : Exclusive start (fileOps (appRun P E (initialState c) evs).sh.log)) :
    FilesOk P start (appRun P E (initialState c) evs) := by
  have h := appRun_keep (P := P) (E := E)
    (I := fun s => Exclusive start (fileOps s.sh.log) → FilesOk P start s)
    (s := initialState c) (fun cmd i t v hinv hdeed hlog => ?_) evs (initialState_ok c)
    (fun _ => initialState_filesOk start c)
  · exact h hexcl
  · rw [AppState.put_sh] at hlog
    -- what was exclusive up to now is so for what came before
    obtain ⟨es, hes, -⟩ := hdeed.emits
    have hbefore : Exclusive start (fileOps t.sh.log) := by
      have h : Exclusive start (fileOps t.sh.log ++ fileOps es) := by
        rw [← fileOps_append]
        rw [hes] at hlog
        exact hlog
      exact h.before
    exact hdeed.filesOk (hinv hbefore) hlog

/--
At every boundary of the event loop a file that a slot has created is the one that exactly one
slot is receiving, with as many bytes as the slot has counted, or it is whole and nobody
receives it; no slot writes to or deletes a file that is not its own or that is complete; the
counters stay within the announced size.
-/
theorem received_files_whole
    (P : Primitives) (E : Env) (start : Bytes → Option Bytes) (c : Config) (evs : List AppEvent)
    (hexcl : Exclusive start (fileOps (appRun P E (initialState c) evs).sh.log)) :
    WholeOrAbsent P start (appRun P E (initialState c) evs) := by
  have h := appRun_filesOk start c evs hexcl
  generalize appRun P E (initialState c) evs = s at h ⊢
  have hreceiving : ∀ k name, Receiving s k name → writer (fileOps s.sh.log) name = some k := by
    rintro k name ⟨hact, rfl⟩
    obtain ⟨data, hheld, -⟩ := h.transfer hact
    exact (h.kept.holds k _ data hheld).1
  refine ⟨fun i name data hcreate hdata => ?_, h.kept.orderly, fun i => (h.rx i).bound⟩
  cases hwriter : writer (fileOps s.sh.log) name with
  | none =>
      refine Or.inr ⟨fun k hk => ?_, h.kept.whole i name data (mem_fileOps_create.mpr hcreate)
        hwriter hdata⟩
      rw [hreceiving k name hk] at hwriter
      cases hwriter
  | some j =>
      obtain ⟨mine, hheld⟩ := h.kept.held j name hwriter
      have hrec : Receiving s j name := by
        simp only [FileRx.held] at hheld
        split at hheld
        · rename_i hact
          simp only [Option.some.injEq, Prod.mk.injEq] at hheld
          exact ⟨hact, hheld.1⟩
        · cases hheld
      refine Or.inl ⟨j, fun k => ⟨fun hk => ?_, fun hk => ?_⟩, ?_, ?_⟩
      · have hk := hreceiving k name hk
        rw [hwriter] at hk
        exact (Option.some.inj hk).symm
      · rw [hk]
        exact hrec
      · obtain ⟨hact, rfl⟩ := hrec
        obtain ⟨content, -, hcontent, -, hlen⟩ := h.transfer hact
        rw [hdata] at hcontent
        rw [Option.some.inj hcontent]
        exact hlen
      · obtain ⟨_, _, _, hlt⟩ := (h.rx j).hashed hrec.1
        exact hlt

/-- FILE frames of a peer, numbered from `seq` on. -/
def fileFrames : Option NoiseSession → UInt32 → List Bytes → Bytes
  | _, _, [] => []
  | session, seq, pt :: pts =>
      let r := noiseEncrypt samplePrimitives session (.data pt) true
      frameBytes noxMsgFile seq (r.1.getD []) ++ fileFrames r.2 (seq + 1) pts

/-- A caller announces the file "a" and sends it. -/
def callerFile (c b : UInt8) (content : Bytes) : Bytes :=
  let hash := samplePrimitives.generichash (be64 content.length ++ content)
  match (callerExchange c b).run samplePrimitives with
  | .ok r => fileFrames (some r.sessionI) 0 [metadataBytes [0x61] content.length hash, content]
  | .error _ => []

/-- "b" comes in and sends a file of two bytes. -/
def senderEnv : Env :=
  { knownEnv with
    recv := fun t =>
      if t = 7 then .data (sampleFrame 0x61 7 false)
      else if t = 17 then .data (sampleFrame 0x61 7 true)
      else if t = 27 then .data (callerFile 0x61 7 [1, 2])
      else .data [] }

/-- The state when the file has arrived. -/
def fileState : AppState :=
  appRun samplePrimitives senderEnv (initialState sampleConfig)
    [.accept, .peer 5 false true, .peer 5 false true, .peer 5 false true]

/-- The file is whole when it has arrived. -/
theorem received_files_whole_two :
    Exclusive (fun _ => none) (fileOps fileState.sh.log) ∧
    content (fun _ => none) (fileOps fileState.sh.log) (receivedTag ++ [0x61]) = some [1, 2] ∧
    Whole samplePrimitives fileState.sh.log (receivedTag ++ [0x61]) [1, 2] := by
  have hops : fileOps fileState.sh.log = [.create 0 (receivedTag ++ [0x61]),
      .write 0 (receivedTag ++ [0x61]) [1, 2], .close 0 (receivedTag ++ [0x61])] := by
    decide +kernel
  have hexcl : Exclusive (fun _ => none) (fileOps fileState.sh.log) := by
    rw [hops]
    exact Exclusive.single rfl (by simp [Op.IsCreate])
  have hcontent : content (fun _ => none) (fileOps fileState.sh.log) (receivedTag ++ [0x61]) =
      some [1, 2] := by
    rw [hops]
    decide
  have hcreate : .fileCreate 0 (receivedTag ++ [0x61]) ∈ fileState.sh.log := by
    rw [← mem_fileOps_create, hops]
    exact List.mem_cons_self
  have hidle : ∀ k, (fileState.peers k).rxFile.active = false := by
    decide +kernel
  have h : WholeOrAbsent samplePrimitives (fun _ => none) fileState := by
    unfold fileState at hexcl ⊢
    exact received_files_whole samplePrimitives senderEnv (fun _ => none) sampleConfig
      [.accept, .peer 5 false true, .peer 5 false true, .peer 5 false true] hexcl
  obtain ⟨j, hj, -⟩ | ⟨-, hwhole⟩ := h.files 0 (receivedTag ++ [0x61]) [1, 2] hcreate hcontent
  · obtain ⟨hact, -⟩ := (hj j).mpr (Eq.refl j)
    rw [hidle j] at hact
    cases hact
  · exact ⟨hexcl, hcontent, hwhole⟩

end Runs

end App
end Noxtor
