import Noxtor.App.Chunking
import Noxtor.App.FileNames
import Noxtor.App.FileSender
import Noxtor.App.ReceivedFiles

/-!
# What the file receiver makes of the records

`Inbox` is what a transfer depends on at the receiver: `rx_file` and the history of the downloads
directory.  `Phase` says what it is after the records that have been handed on: nothing yet, a
file with as many bytes as its chunks have, or a file that is complete and reported.

A text leaves the inbox alone or tears the slot down (`textFrame_inbox`), and a FILE record of
the transfer moves the phase on (`rxRecord_phase`).
-/

namespace Noxtor
namespace App

open ByteString Noise Directory

/--
There is memory, the hash functions work, the downloads directory can be checked and has room for
`size` bytes, a file can be created there under one of the two names, and writes succeed.
-/
structure Willing (E : Env) (size : Nat) : Prop where
  memory : ∀ t, E.malloc t = true
  hash : ∀ t, E.hashOk t = true
  dir : ∀ t, E.dirOk t = true
  disk : ∀ t, ∃ bavail frsize, E.statvfs t = some (bavail, frsize) ∧
    size + size / 10 ≤ bavail * frsize % 2 ^ 64
  opens : ∀ t, (∃ fd, E.openat t = .fd fd) ∨
    (E.openat t = .eexist ∧ ∃ fd, E.openat (t + 2) = .fd fd)
  writes : ∀ t data, data.length ≤ 4096 → (writeToFile (E.fileWrites t) data).1 = true

/-- What a transfer depends on at the receiver. -/
structure Inbox where
  rx : FileRx
  ops : List (Op Slot Bytes UInt8)
  dirFd : Int

/-- The inbox of a slot. -/
def inbox (v : View) : Inbox :=
  { rx := v.ps.rxFile, ops := fileOps v.sh.log, dirFd := v.sh.downloadsDirFd }

section Texts

variable {P : Primitives} {E : Env} {i : Slot} {v w : View}

/-- The inbox is the same, or the slot has been torn down. -/
def InboxKept (v w : View) : Prop :=
  w.ps.session = none ∨ inbox w = inbox v

theorem inbox_emit
    {e : Effect} (v : View) (he : e.fileOp = none) :
    inbox (v.emit [e]) = inbox v := by
  have hops : fileOps (v.sh.log ++ [e]) = fileOps v.sh.log :=
    fileOps_quiet fun e' h => by rw [List.mem_singleton.mp h]; exact he
  unfold inbox
  rw [View.emit_log, hops]
  rfl

theorem inbox_rxAdvance
    (v : View) :
    inbox (rxAdvance E v) = inbox v := rfl

theorem inbox_sockWrite
    (data : Bytes) (v : View) :
    inbox (sockWrite E i data v).2 = inbox v := by
  unfold sockWrite
  cases E.write v.sh.tick with
  | ok n => exact inbox_emit v.tickOn rfl
  | eagain => rfl
  | eintr => rfl
  | err => rfl

theorem peerDisconnected_inbox
    (v : View) :
    InboxKept v (smDispatch P E i .peerDisconnected v).2 := by
  rw [smDispatch_peerDisconnected]
  split
  · exact Or.inr rfl
  · exact Or.inl rfl

/-- A text of the queue: the next one only follows if the inbox is the same. -/
theorem sendText_inbox
    (pt : Bytes) (v : View) :
    ((sendText P E i pt v).1 = .ok () → inbox (sendText P E i pt v).2 = inbox v) ∧
      InboxKept v (sendText P E i pt v).2 := by
  unfold sendText
  generalize noiseEncrypt P v.ps.session (.data pt) true = enc
  obtain ⟨_ | ct, session⟩ := enc
  · exact ⟨fun _ => rfl, Or.inr rfl⟩
  dsimp only
  have h1 : inbox (v.setPs fun ps => { ps with session := session }) = inbox v := rfl
  generalize (v.setPs fun ps => { ps with session := session }) = v1 at h1 ⊢
  have h2 := inbox_sockWrite (E := E) (i := i) (frameBytes noxMsgText v1.ps.txSeq ct) v1
  generalize sockWrite E i (frameBytes noxMsgText v1.ps.txSeq ct) v1 = r at h2 ⊢
  obtain ⟨r, v2⟩ := r
  have h3 : InboxKept v (smDispatch P E i .peerDisconnected v2).2 :=
    (peerDisconnected_inbox v2).imp id fun h => (h.trans h2).trans h1
  cases r with
  | ok n =>
      dsimp only
      split
      · refine ⟨fun h => ?_, h3⟩
        cases h
      · have h4 : inbox (touchLastActive E (v2.setPs fun ps =>
            { ps with txSeq := ps.txSeq + 1 })) = inbox v := h2.trans h1
        exact ⟨fun _ => h4, Or.inr h4⟩
  | eagain =>
      refine ⟨fun h => ?_, h3⟩
      cases h
  | eintr =>
      refine ⟨fun h => ?_, h3⟩
      cases h
  | err =>
      refine ⟨fun h => ?_, h3⟩
      cases h

theorem sendQueuedCallback_inbox
    (text : Bytes) (v : View) :
    ((sendQueuedCallback P E i text v).1 = .ok () →
      inbox (sendQueuedCallback P E i text v).2 = inbox v) ∧
      InboxKept v (sendQueuedCallback P E i text v).2 := by
  unfold sendQueuedCallback
  split
  · exact ⟨fun _ => rfl, Or.inr rfl⟩
  split
  · exact ⟨fun _ => rfl, Or.inr rfl⟩
  unfold sodiumMalloc
  cases E.malloc v.sh.tick with
  | false => exact ⟨fun _ => rfl, Or.inr rfl⟩
  | true => exact sendText_inbox (text ++ [0]) v.tickOn

theorem flushQueue_inbox
    (onion : Bytes) (texts : List Bytes) (v : View) :
    InboxKept v (flushQueue P E i onion texts v) := by
  induction texts generalizing v with
  | nil =>
      exact Or.inr rfl
  | cons text texts ih =>
      unfold flushQueue
      dsimp only
      have hu := inbox_emit v (e := .queueSend i onion text
        (v.ps.session.map NoiseSession.remoteStatic)) rfl
      generalize (v.emit [Effect.queueSend i onion text _]) = u at hu ⊢
      have h := sendQueuedCallback_inbox (P := P) (E := E) (i := i) text u
      generalize sendQueuedCallback P E i text u = r at h ⊢
      obtain ⟨_ | _, v1⟩ := r
      · exact h.2.imp id fun h => h.trans hu
      · exact (ih v1).imp id fun h' => h'.trans ((h.1 rfl).trans hu)

theorem flushOnFirst_inbox
    (v : View) :
    InboxKept v (flushOnFirst P E i v) := by
  unfold flushOnFirst
  split
  · split
    · right
      dsimp only
      split <;> rfl
    · unfold dbProcessQueue
      split
      · exact Or.inr rfl
      · dsimp only
        generalize hu : View.emit [Effect.dbProcessQueue v.ps.peerOnion _] _ = u
        have hinbox : inbox u = inbox v := by
          rw [← hu]
          exact inbox_emit _ rfl
        exact (flushQueue_inbox _ _ u).imp id fun h => h.trans hinbox
  · exact Or.inr rfl

/-- A TEXT frame is no matter of the inbox. -/
theorem textFrame_inbox
    (payload : Bytes) (v : View) :
    InboxKept v (textFrame P E i payload v) := by
  unfold textFrame sodiumMalloc
  cases E.malloc v.sh.tick with
  | false => exact Or.inr rfl
  | true =>
      dsimp only
      generalize noiseDecrypt P v.tickOn.ps.session (.data payload) true = opened
      obtain ⟨_ | _ | ⟨b, pt⟩, session⟩ := opened
      · exact Or.inr rfl
      · exact Or.inr rfl
      · dsimp only
        split
        · have h1 : inbox ((v.tickOn.setPs fun ps => { ps with session := session }).emit
              [.incoming i (b :: pt)]) = inbox v := inbox_emit _ rfl
          generalize ((v.tickOn.setPs fun ps => { ps with session := session }).emit
            [.incoming i (b :: pt)]) = v1 at h1 ⊢
          exact (flushOnFirst_inbox v1).imp id fun h => h.trans h1
        · exact Or.inr rfl

end Texts

/--
Where a transfer of `content` is when the FILE records of the first list have been handed on:
not begun, with the chunks so far in the file, or with the whole file there and reported.
-/
inductive Phase (P : Primitives) (i : Slot) (metadata content : Bytes) :
    List Bytes → Inbox → Prop where
  | waiting {b : Inbox} (idle : b.rx.active = false) (dir : b.dirFd ≥ 0) :
      Phase P i metadata content [] b
  | receiving {b : Inbox} {got : List Bytes} (active : b.rx.active = true)
      (size : b.rx.expectedSize = content.length)
      (count : b.rx.receivedBytes = got.flatten.length)
      (absorbed : b.rx.hashState = be64 content.length ++ got.flatten)
      (hash : b.rx.expectedHash = P.generichash (be64 content.length ++ content))
      (file : ∀ start, Directory.content start b.ops b.rx.localName = some got.flatten)
      (more : got.flatten.length < content.length) :
      Phase P i metadata content (metadata :: got) b
  | done {b : Inbox} {got : List Bytes} {name : Bytes} (idle : b.rx.active = false)
      (file : ∀ start, Directory.content start b.ops name = some content)
      (report : ∃ ops, b.ops = ops ++ [.close i name]) (whole : got.flatten = content) :
      Phase P i metadata content (metadata :: got) b

section Records

variable {P : Primitives} {E : Env} {i : Slot} {v : View}

theorem smDispatch_file_inbox
    {ev : PeerEvent} (hev : ev = .fileDone ∨ ev = .fileRxStart) (v : View) :
    inbox (smDispatch P E i ev v).2 = inbox v := by
  cases hfind : findTransition v.ps.state ev with
  | none =>
      rw [smDispatch_none hfind]
  | some t =>
      have hact : t.action = .fileEnd ∨ t.action = .fileBeginRx := by
        rcases hev with rfl | rfl <;> cases hst : v.ps.state <;> rw [hst] at hfind <;>
          cases hfind <;> simp
      rw [smDispatch_move hfind (Or.inr (Or.inr (Or.inr hact)))]
      rfl

section Announcement

variable {name : Bytes} {size : Nat} {hash : Block 32}

theorem metadataBytes_tag :
    (metadataBytes name size hash).take 9 = metadataTag := by
  unfold metadataBytes
  rw [List.append_assoc, List.append_assoc]
  exact List.take_left' rfl

theorem metadataBytes_drop :
    (metadataBytes name size hash).drop 265 = be64 size ++ hash.toList := by
  unfold metadataBytes
  rw [List.append_assoc]
  exact List.drop_left' (by simp [metadataTag])

theorem metadataBytes_size
    (hsize : size < 2 ^ 64) :
    ofBe (((metadataBytes name size hash).drop 265).take 8) = size := by
  rw [metadataBytes_drop, List.take_left' (be64_length size), ofBe_be64 hsize]

theorem metadataBytes_hash :
    Block.ofBytes 32 ((metadataBytes name size hash).drop 273) = hash := by
  have hdrop : (metadataBytes name size hash).drop 273 =
      ((metadataBytes name size hash).drop 265).drop 8 := by
    rw [List.drop_drop]
  rw [hdrop, metadataBytes_drop, List.drop_left' (be64_length size), Block.ofBytes_toList]

end Announcement

/-- The first name is free, or the second one. -/
theorem openRecvFile_willing
    {size : Nat} {safeName : Bytes} (hE : Willing E size) (hdir : v.sh.downloadsDirFd ≥ 0)
    (hname : SafeName 256 safeName) :
    ∃ fd name u, openRecvFile E i safeName v = (.ok fd, u) ∧
      u.ps.rxFile = { v.ps.rxFile with localName := name } ∧
      u.sh.log = v.sh.log ++ [.fileCreate i name] ∧
      u.sh.downloadsDirFd = v.sh.downloadsDirFd := by
  have hsep : ¬ safeName.any (fun c => c = 0x2f || c = 0x5c) = true := by
    rw [List.any_eq_true]
    rintro ⟨c, hc, hbad⟩
    obtain ⟨h1, h2⟩ := hname.no_separator c hc
    simp [h1, h2] at hbad
  have hfirst : ¬ (receivedTag ++ safeName).length ≥ 300 :=
    Nat.not_le.mpr (ReceivedName.length hname (Or.inl rfl))
  have hsecond : ∀ rnd, ¬ (receivedTag ++ safeName ++ [0x2e] ++ hex8 rnd).length ≥ 300 :=
    fun rnd => Nat.not_le.mpr (ReceivedName.length hname (Or.inr ⟨rnd, rfl⟩))
  unfold openRecvFile
  rw [if_neg hsep, if_neg (by omega), if_neg (by rw [hE.dir]; decide)]
  dsimp only
  rw [if_neg hfirst]
  have hdir1 : v.tickOn.sh.downloadsDirFd = v.sh.downloadsDirFd := rfl
  have hlog1 : v.tickOn.sh.log = v.sh.log := rfl
  have hps1 : v.tickOn.ps = v.ps := rfl
  generalize v.tickOn = v1 at hdir1 hlog1 hps1 ⊢
  rw [← hdir1, ← hlog1, ← hps1]
  unfold openatExcl
  rcases hE.opens v1.sh.tick with ⟨fd, hopen⟩ | ⟨hexists, fd, hopen⟩
  · rw [hopen]
    exact ⟨fd, _, _, rfl, rfl, rfl, rfl⟩
  · rw [hexists]
    dsimp only
    rw [if_neg (hsecond _)]
    generalize receivedTag ++ safeName ++ [0x2e] ++ hex8 _ = second
    have htick : v1.tickOn.tickOn.sh.tick = v1.sh.tick + 2 := rfl
    have hdir2 : v1.tickOn.tickOn.sh.downloadsDirFd = v1.sh.downloadsDirFd := rfl
    have hlog2 : v1.tickOn.tickOn.sh.log = v1.sh.log := rfl
    have hps2 : v1.tickOn.tickOn.ps = v1.ps := rfl
    rw [htick, hopen]
    generalize v1.tickOn.tickOn = v2 at hdir2 hlog2 hps2 ⊢
    rw [← hdir2, ← hlog2, ← hps2]
    exact ⟨fd, second, _, rfl, rfl, rfl, rfl⟩

/-- The transfer has begun. -/
theorem rxBegin_inbox
    {size : Nat} (hE : Willing E size) (fd : Nat) (safeName : Bytes) (hash : Block 32) (v : View) :
    ∃ rx : FileRx, inbox (rxBegin P E i fd safeName size hash v) =
        { rx := rx, ops := fileOps v.sh.log, dirFd := v.sh.downloadsDirFd } ∧
      rx.active = true ∧ rx.expectedSize = size ∧ rx.receivedBytes = 0 ∧
      rx.hashState = be64 size ∧ rx.expectedHash = hash ∧ rx.localName = v.ps.rxFile.localName := by
  unfold rxBegin
  dsimp only
  generalize hv1 : (v.tickOn.setPs fun ps => { ps with rxFile := _ }) = v1
  have hin := smDispatch_file_inbox (P := P) (E := E) (i := i) (Or.inr rfl) v1
  generalize (smDispatch P E i .fileRxStart v1).2 = v2 at hin ⊢
  unfold hashCall
  rw [if_pos (hE.hash _)]
  dsimp only
  rw [if_pos (hE.hash _)]
  dsimp only
  have hrx : v2.ps.rxFile = v1.ps.rxFile := congrArg Inbox.rx hin
  have hops : fileOps v2.sh.log = fileOps v1.sh.log := congrArg Inbox.ops hin
  have hdir : v2.sh.downloadsDirFd = v1.sh.downloadsDirFd := congrArg Inbox.dirFd hin
  refine ⟨{ v2.ps.rxFile with hashState := be64 size }, ?_, ?_, ?_, ?_, rfl, ?_, ?_⟩
  · change Inbox.mk _ (fileOps v2.sh.log) v2.sh.downloadsDirFd = _
    rw [hops, hdir, ← hv1]
    rfl
  all_goals
    dsimp only
    rw [hrx, ← hv1]
    rfl

/-- An announcement while nothing is being received. -/
theorem rxMetadata_phase
    {name content : Bytes} {hash : Block 32} (hE : Willing E content.length)
    (hsize : content ≠ []) (hmax : content.length ≤ noxMaxFileSize)
    (hhash : P.generichash (be64 content.length ++ content) = hash) (hzero : hash ≠ Block.zero 32)
    (h : Phase P i (metadataBytes name content.length hash) content [] (inbox v)) :
    Phase P i (metadataBytes name content.length hash) content
      [metadataBytes name content.length hash]
      (inbox (rxMetadata P E i (metadataBytes name content.length hash) v)) := by
  have hdir : v.sh.downloadsDirFd ≥ 0 := by
    cases h with
    | waiting idle dir => exact dir
  have hlt : content.length < 2 ^ 64 := Nat.lt_of_le_of_lt hmax (by decide)
  have hpos : 0 < content.length := List.length_pos_iff.mpr hsize
  obtain ⟨bavail, frsize, hstat, hroom⟩ := hE.disk v.tickOn.sh.tick
  unfold rxMetadata
  dsimp only
  rw [metadataBytes_size hlt, metadataBytes_hash, if_neg (by omega), hstat]
  dsimp only
  rw [if_neg (by omega), if_neg hzero]
  have hsafe := sanitizeFilename_safe (E.random v.sh.tick) (show 2 ≤ 256 by decide)
    (cstr (((metadataBytes name content.length hash).drop 9).take 255))
  generalize sanitizeFilename (E.random v.sh.tick) 256 _ = safeName at hsafe ⊢
  generalize hv1 : (v.tickOn.tickOn.setPs fun ps => { ps with rxFile := {} }) = v1
  have hdir1 : v1.sh.downloadsDirFd ≥ 0 := by
    rw [← hv1]
    exact hdir
  obtain ⟨fd, localName, u, hopen, hrx, hlog, -⟩ :=
    openRecvFile_willing (i := i) hE hdir1 hsafe
  rw [hopen]
  dsimp only
  obtain ⟨rx, hin, hact, hexp, hcount, habs, hsum, hlocal⟩ :=
    rxBegin_inbox (P := P) (i := i) hE fd safeName hash u
  rw [hin]
  refine .receiving hact hexp hcount ?_ (hsum.trans hhash.symm) (fun start => ?_) hpos
  · rw [habs, List.flatten_nil, List.append_nil]
  · rw [hlocal, hrx, hlog, fileOps_append]
    exact content_same rfl

/-- A chunk of the file that is being received. -/
theorem rxData_phase
    {metadata content pt : Bytes} {got : List Bytes} (hE : Willing E content.length)
    (hlen : pt ≠ [] ∧ pt.length ≤ noxMaxMsgLen) (hfile : got.flatten ++ pt <+: content)
    (h : Phase P i metadata content (metadata :: got) (inbox v))
    (hact : v.ps.rxFile.active = true) :
    Phase P i metadata content (metadata :: (got ++ [pt])) (inbox (rxData P E i pt v)) := by
  cases h with
  | done idle file report whole =>
      exact absurd (hact.symm.trans idle) (by decide)
  | receiving active size count absorbed hash file more =>
  have hsize : v.ps.rxFile.expectedSize = content.length := size
  have hcount : v.ps.rxFile.receivedBytes = got.flatten.length := count
  have habs : v.ps.rxFile.hashState = be64 content.length ++ got.flatten := absorbed
  have hsum : v.ps.rxFile.expectedHash = P.generichash (be64 content.length ++ content) := hash
  have hflat : (got ++ [pt]).flatten = got.flatten ++ pt := by
    rw [List.flatten_append, List.flatten_singleton]
  have hle := hfile.length_le
  rw [List.length_append] at hle
  have hpos := List.length_pos_iff.mpr hlen.1
  have hdata : pt.take (v.ps.rxFile.expectedSize - v.ps.rxFile.receivedBytes) = pt := by
    rw [hsize, hcount]
    exact List.take_of_length_le (by omega)
  have hwrite := hE.writes v.sh.tick pt hlen.2
  have hwritten := writeToFile_all _ _ hwrite
  have hnext : ∀ start, Directory.content start
      (fileOps (v.sh.log ++ [.fileWrite i v.ps.rxFile.localName pt])) v.ps.rxFile.localName =
        some (got.flatten ++ pt) := by
    intro start
    have hbefore : Directory.content start (fileOps v.sh.log) v.ps.rxFile.localName =
        some got.flatten := file start
    rw [fileOps_append]
    refine (content_same rfl).trans ?_
    change (Directory.content start (fileOps v.sh.log) v.ps.rxFile.localName).map (· ++ pt) = _
    rw [hbefore]
    rfl
  unfold rxData
  dsimp only
  rw [if_neg (by omega), if_neg (by omega), hdata, hwrite, hwritten]
  rw [if_neg (by decide), if_neg (by rw [hE.hash]; decide)]
  generalize hv3 : View.setPs _ _ = v3
  have hrx3 : v3.ps.rxFile = { v.ps.rxFile with
      hashState := v.ps.rxFile.hashState ++ pt
      receivedBytes := v.ps.rxFile.receivedBytes + pt.length
      lastChunkTs := v3.ps.rxFile.lastChunkTs } := by
    rw [← hv3]
    rfl
  have hlog3 : v3.sh.log = v.sh.log ++ [.fileWrite i v.ps.rxFile.localName pt] := by
    rw [← hv3]
    rfl
  rw [← hlog3] at hnext
  have hactive3 : v3.ps.rxFile.active = true := by rw [hrx3]; exact hact
  have hsize3 : v3.ps.rxFile.expectedSize = content.length := by rw [hrx3]; exact hsize
  have hcount3 : v3.ps.rxFile.receivedBytes = got.flatten.length + pt.length := by
    rw [hrx3, hcount]
  have habs3 : v3.ps.rxFile.hashState = be64 content.length ++ (got.flatten ++ pt) := by
    rw [hrx3, habs, List.append_assoc]
  have hsum3 : v3.ps.rxFile.expectedHash = P.generichash (be64 content.length ++ content) := by
    rw [hrx3]
    exact hsum
  have hlocal3 : v3.ps.rxFile.localName = v.ps.rxFile.localName := by rw [hrx3]
  rw [← hlocal3] at hnext
  rw [← hflat] at habs3 hnext
  split
  · -- the last chunk
    rename_i hall
    rw [if_neg (by omega)]
    have hwhole : (got ++ [pt]).flatten = content := by
      rw [hflat]
      exact hfile.eq_of_length_le (by rw [List.length_append]; omega)
    unfold rxComplete
    rw [if_neg (by rw [hE.hash]; decide), habs3, hsum3, hwhole, if_pos rfl]
    unfold rxFinish
    rw [smDispatch_file_inbox (Or.inl rfl)]
    have hops : fileOps (v3.sh.log ++ [.fileDone i v3.ps.rxFile.localName]) =
        fileOps v3.sh.log ++ [.close i v3.ps.rxFile.localName] := fileOps_append _ _
    refine @Phase.done P i metadata content _ (got ++ [pt]) _ rfl (fun start => ?_) ⟨_, hops⟩ hwhole
    change Directory.content start (fileOps (v3.sh.log ++ [.fileDone i v3.ps.rxFile.localName]))
      v3.ps.rxFile.localName = some content
    rw [hops, ← hwhole, ← hnext start]
    exact content_same rfl
  · rename_i hmore
    refine .receiving hactive3 hsize3 ?_ habs3 hsum3 hnext ?_
    · rw [hflat, List.length_append]
      exact hcount3
    · rw [hflat, List.length_append]
      omega

/--
A FILE record of the transfer moves it on.  `expected` are the FILE records of the whole transfer:
the announcement, and chunks that are not taken for one.
-/
theorem rxRecord_phase
    {name content pt : Bytes} {hash : Block 32} {chunks d : List Bytes}
    (hE : Willing E content.length) (hsize : content ≠ []) (hmax : content.length ≤ noxMaxFileSize)
    (hhash : P.generichash (be64 content.length ++ content) = hash) (hzero : hash ≠ Block.zero 32)
    (hchunks : chunks.flatten = content)
    (hclean : ∀ chunk ∈ chunks, ¬ TakenForMetadata chunk ∧ chunk ≠ [] ∧
      chunk.length ≤ noxMaxMsgLen)
    (hnext : d ++ [pt] <+: metadataBytes name content.length hash :: chunks)
    (h : Phase P i (metadataBytes name content.length hash) content d (inbox v)) :
    Phase P i (metadataBytes name content.length hash) content (d ++ [pt])
      (inbox (rxRecord P E i pt v)) := by
  unfold rxRecord
  cases d with
  | nil =>
      obtain ⟨rfl, -⟩ := List.cons_prefix_cons.mp hnext
      have hidle : v.ps.rxFile.active = false := by
        cases h with
        | waiting idle dir => exact idle
      rw [if_pos ⟨metadataBytes_length _ _ _, metadataBytes_tag⟩, hidle,
        if_neg Bool.false_ne_true]
      exact rxMetadata_phase hE hsize hmax hhash hzero h
  | cons first got =>
      rw [List.cons_append, List.cons_prefix_cons] at hnext
      obtain ⟨rfl, hgot⟩ := hnext
      have hmem : pt ∈ chunks := hgot.subset (by simp)
      obtain ⟨hnot, hlen⟩ := hclean pt hmem
      have hfile : got.flatten ++ pt <+: content := by
        obtain ⟨rest, hrest⟩ := hgot
        refine ⟨rest.flatten, ?_⟩
        rw [← hchunks, ← hrest]
        simp
      have hact : v.ps.rxFile.active = true := by
        cases h with
        | receiving active size count absorbed hash file more => exact active
        | done idle file report whole =>
            -- the chunks so far are the file, so there is no other
            have hle := hfile.length_le
            have hpos := List.length_pos_iff.mpr hlen.1
            rw [List.length_append, whole] at hle
            omega
      have hnot' : ¬ (pt.length = 305 ∧ pt.take 9 = metadataTag) := hnot
      rw [if_neg hnot', hact]
      exact rxData_phase hE hlen hfile h hact

/-- The records of a transfer: announcement and chunks in order, and texts anywhere. -/
structure Transferred (name content : Bytes) (hash : Block 32)
    (records : List (UInt8 × Bytes)) : Prop where
  formed : ∀ r ∈ records, WellFormedRecord r
  files : ∃ chunks, fileRecords records = metadataBytes name content.length hash :: chunks ∧
    chunks.flatten = content ∧ ∀ chunk ∈ chunks, ¬ TakenForMetadata chunk

theorem fileRecords_append
    (records records' : List (UInt8 × Bytes)) :
    fileRecords (records ++ records') = fileRecords records ++ fileRecords records' := by
  simp [fileRecords, List.filter_append]

theorem mem_fileRecords
    {records : List (UInt8 × Bytes)} {pt : Bytes} (h : pt ∈ fileRecords records) :
    (noxMsgFile, pt) ∈ records := by
  obtain ⟨⟨type, pt'⟩, hr, rfl⟩ := List.mem_map.mp h
  rw [List.mem_filter] at hr
  obtain rfl : type = noxMsgFile := by simpa using hr.2
  exact hr.1

/-- A frame that is expected moves the transfer on by its record, or the slot is torn down. -/
theorem frameStep_phase
    {name content payload pt tail : Bytes} {hash : Block 32} {type : UInt8}
    {frames records done rest : List (UInt8 × Bytes)} (fd : Int)
    (hE : Willing E content.length) (hsize : content ≠ [])
    (hmax : content.length ≤ noxMaxFileSize)
    (hhash : P.generichash (be64 content.length ++ content) = hash) (hzero : hash ≠ Block.zero 32)
    (hall : Transferred name content hash (done ++ (type, pt) :: rest))
    (hexp : Expects P v ((type, payload) :: frames) ((type, pt) :: records))
    (hrecv : v.ps.recv = frameBytes type v.ps.rxSeq payload ++ tail)
    (h : Phase P i (metadataBytes name content.length hash) content (fileRecords done) (inbox v)) :
    (frameStep P E i fd v).view.ps.session = none ∨
      Phase P i (metadataBytes name content.length hash) content
        (fileRecords (done ++ [(type, pt)])) (inbox (frameStep P E i fd v).view) := by
  obtain ⟨hlive, s, hs, hacc⟩ := hexp
  cases hacc with
  | @cons _ s' _ _ _ _ _ htype hlen hopen hpt hrest =>
  have hhead : headOf v.ps.recv = .frame (headerOf type v.ps.rxSeq payload) payload := by
    rw [hrecv]
    exact headOf_frameBytes htype hlen tail
  have hrec : Receives v (headerOf type v.ps.rxSeq payload) payload :=
    ⟨hhead, htype, hlive.session_ne⟩
  generalize hu : consumed (headerOf type v.ps.rxSeq payload) v = u
  have hin : inbox u = inbox v := by
    rw [← hu]
    rfl
  rcases htype with rfl | rfl
  · -- a text
    rw [frameStep_text hrec (hE.memory _) rfl rfl, hu, fileRecords_text]
    refine (textFrame_inbox payload u).imp id fun hkept => ?_
    change Phase _ _ _ _ _ (inbox (textFrame P E i payload u))
    rw [hkept, hin]
    exact h
  · right
    rw [frameStep_file hrec (hE.memory _) rfl rfl, hu, fileRecords_file]
    have hopened : opened P u payload = some pt := by
      have hses : u.ps.session = some s := by
        rw [← hu]
        exact hs
      unfold opened
      rw [hses, hopen]
    have hkey : s.rx.hasKey = true := by
      obtain ⟨t, ht, hk⟩ := hlive.keyed
      rw [hs] at ht
      cases ht
      exact hk
    have hmac : noxMacLen ≤ payload.length := by
      rcases noiseDecrypt_cases (P := P) hkey payload with heq | ⟨pt', -, hd, heq⟩
      · rw [hopen] at heq
        cases heq
      · rw [P.aeadDecrypt_length _ _ _ _ _ hd]
        exact Nat.le_add_left _ _
    obtain ⟨b, pt, rfl⟩ := List.exists_cons_of_ne_nil hpt
    change Phase _ _ _ _ _ (inbox (fileFrame P E i payload u))
    rw [fileFrame_eq ⟨hmac, hlen.2⟩ (hE.memory _), hopened, inbox_rxAdvance]
    dsimp only
    generalize hw : (afterOpen P payload u.tickOn).emit [.fileRecord i (b :: pt)] = w
    have hinw : inbox w = inbox v := by
      rw [← hw, inbox_emit _ rfl, ← hin]
      rfl
    obtain ⟨chunks, hfiles, hchunks, hclean⟩ := hall.files
    refine rxRecord_phase hE hsize hmax hhash hzero hchunks (fun chunk hc => ?_) ?_
      (by rw [hinw]; exact h)
    · have hmem : (noxMsgFile, chunk) ∈ done ++ (noxMsgFile, b :: pt) :: rest :=
        mem_fileRecords (by rw [hfiles]; exact List.mem_cons_of_mem _ hc)
      obtain ⟨-, hformed⟩ := hall.formed _ hmem
      exact ⟨hclean chunk hc, hformed⟩
    · rw [← hfiles, ← fileRecords_file]
      have hsplit : done ++ (noxMsgFile, b :: pt) :: rest =
          (done ++ [(noxMsgFile, b :: pt)]) ++ rest := by simp
      rw [hsplit, fileRecords_append (done ++ [(noxMsgFile, b :: pt)])]
      exact List.prefix_append _ _

end Records

section ReceiverRun

variable {P : Primitives} {E : Env} {i : Slot} {fd : Int} {u v w : View}
  {name content : Bytes} {hash : Block 32} {frames records : List (UInt8 × Bytes)} {k : Nat}

/--
Since `v` the first `k` frames have been handed on, and the transfer is where their records have
brought it.
-/
structure Underway (P : Primitives) (i : Slot) (name content : Bytes) (hash : Block 32)
    (frames records : List (UInt8 × Bytes)) (v : View) (k : Nat) (w : View) : Prop where
  count : k ≤ frames.length
  expects : Expects P w (frames.drop k) (records.drop k)
  begun : w.ps.recv <+: encodeFrames w.ps.rxSeq (frames.drop k)
  phase : Phase P i (metadataBytes name content.length hash) content
    (fileRecords (records.take k)) (inbox w)
  delivered : delivered i w.sh.log = delivered i v.sh.log ++ records.take k

/-- The transfer is underway, or the slot has been torn down. -/
def UnderwayOrGone (P : Primitives) (i : Slot) (name content : Bytes) (hash : Block 32)
    (frames records : List (UInt8 × Bytes)) (v w : View) : Prop :=
  (w.ps.hs = none ∧ w.ps.session = none) ∨
    ∃ k, Underway P i name content hash frames records v k w

/-- The step lemma of the receiver: a turn of the frame loop. -/
theorem underway_step
    (fd : Int) (hE : Willing E content.length) (hsize : content ≠ [])
    (hmax : content.length ≤ noxMaxFileSize)
    (hhash : P.generichash (be64 content.length ++ content) = hash) (hzero : hash ≠ Block.zero 32)
    (hall : Transferred name content hash records) (hlen : frames.length = records.length)
    (h : UnderwayOrGone P i name content hash frames records v w) :
    UnderwayOrGone P i name content hash frames records v (frameStep P E i fd w).view := by
  rcases h with ⟨hhs, hses⟩ | ⟨k, hk⟩
  · left
    have hsilent : Silent i (delivered i w.sh.log) w := ⟨hhs, hses, rfl⟩
    have hstep := hsilent.frameStep (P := P) (E := E) fd
    exact ⟨hstep.1, hstep.2.1⟩
  have hexp := hk.expects
  have hbegun := hk.begun
  cases hframes : frames.drop k with
  | nil =>
      right
      rw [hframes] at hbegun
      rw [frameStep_incomplete (by rw [List.prefix_nil.mp hbegun]; rfl)]
      exact ⟨k, hk⟩
  | cons f rest =>
      obtain ⟨type, payload⟩ := f
      rw [hframes] at hexp hbegun
      have hexp' := hexp
      obtain ⟨-, s, -, hacc⟩ := hexp'
      generalize hrecords : records.drop k = recs at hexp hacc
      cases hacc with
      | @cons _ s' _ _ pt _ recs htype hbound hopen hpt hrest =>
      by_cases hshort : w.ps.recv.length < frameHeaderWireSize + payload.length
      · right
        have hfirst : w.ps.recv <+: frameBytes type w.ps.rxSeq payload :=
          List.prefix_of_prefix_length_le hbegun (List.prefix_append _ _) (by
            rw [frameBytes_length]
            omega)
        rw [frameStep_incomplete (headOf_short htype hbound hfirst hshort)]
        exact ⟨k, hk⟩
      · -- the frame at the head is complete
        obtain ⟨tail, htail⟩ : ∃ tail, w.ps.recv =
            frameBytes type w.ps.rxSeq payload ++ tail := by
          obtain ⟨tail, htail⟩ := List.prefix_of_prefix_length_le
            (List.prefix_append _ _ : frameBytes type w.ps.rxSeq payload <+: _) hbegun (by
              rw [frameBytes_length]
              omega)
          exact ⟨tail, htail.symm⟩
        have hsplit : records = records.take k ++ (type, pt) :: recs := by
          rw [← hrecords, List.take_append_drop]
        have hphase := frameStep_phase (E := E) fd hE hsize hmax hhash hzero
          (by rw [← hsplit]; exact hall) hexp htail hk.phase
        obtain ⟨w', hw', htook⟩ := expects_next (i := i) fd hexp htail
          ⟨hE.memory _, hE.memory _⟩
        rw [hw'] at hphase ⊢
        rcases htook with htook | hgone
        · right
          have htake : records.take (k + 1) = records.take k ++ [(type, pt)] := by
            have hget : records[k]? = some (type, pt) := by
              rw [← List.head?_drop, hrecords]
              rfl
            rw [List.take_add_one, hget]
            rfl
          have hdropf : frames.drop (k + 1) = rest := by
            rw [← List.tail_drop, hframes]
            rfl
          have hdropr : records.drop (k + 1) = recs := by
            rw [← List.tail_drop, hrecords]
            rfl
          refine ⟨k + 1, ?_, ?_, ?_, ?_, ?_⟩
          · have hlt : frames.drop k ≠ [] := by rw [hframes]; exact List.cons_ne_nil _ _
            rw [Ne, List.drop_eq_nil_iff] at hlt
            omega
          · rw [hdropf, hdropr]
            exact htook.expects
          · rw [htail, encodeFrames, List.prefix_append_right_inj] at hbegun
            rw [hdropf]
            change w'.ps.recv <+: encodeFrames w'.ps.rxSeq rest
            rw [htook.recv, htook.rxSeq]
            exact hbegun
          · rw [htake]
            rcases hphase with hnone | hphase
            · exact absurd hnone htook.expects.1.session_ne
            · exact hphase
          · rw [htake]
            change App.delivered i w'.sh.log = _
            rw [htook.delivered, hk.delivered, List.append_assoc]
        · exact Or.inl hgone

/-- The run lemma of the receiver, over reads of any size. -/
theorem underway_run
    {got : Bytes} {chunks : List Bytes}
    (fd : Int) (hE : Willing E content.length) (hsize : content ≠ [])
    (hmax : content.length ≤ noxMaxFileSize)
    (hhash : P.generichash (be64 content.length ++ content) = hash) (hzero : hash ≠ Block.zero 32)
    (hall : Transferred name content hash records) (hlen : frames.length = records.length)
    (harr : Arrived P i v u got frames records k)
    (hund : Underway P i name content hash frames records v k u)
    (hcut : got ++ chunks.flatten <+: encodeFrames v.ps.rxSeq frames)
    (hlive : (rxRun P E i fd chunks u).ps.session ≠ none) :
    ∃ k', Arrived P i v (rxRun P E i fd chunks u) (got ++ chunks.flatten) frames records k' ∧
      Underway P i name content hash frames records v k' (rxRun P E i fd chunks u) := by
  induction chunks generalizing u got k with
  | nil =>
      rw [List.flatten_nil, List.append_nil]
      exact ⟨k, harr, hund⟩
  | cons chunk chunks ih =>
      rw [List.flatten_cons, ← List.append_assoc] at hcut ⊢
      have htake : (frames.take k).length = k := by
        rw [List.length_take, Nat.min_eq_left harr.count]
      -- the bytes after the first `k` frames are those in the buffer and the chunk
      have hpre : (deliver chunk u).ps.recv <+:
          encodeFrames (deliver chunk u).ps.rxSeq (frames.drop k) := by
        have hfirst := (List.prefix_append _ _).trans hcut
        have hsplit := encodeFrames_append v.ps.rxSeq (frames.take k) (frames.drop k)
        rw [List.take_append_drop, htake, ← harr.rxSeq] at hsplit
        rw [hsplit, harr.bytes, List.append_assoc, List.prefix_append_right_inj] at hfirst
        exact hfirst
      have hexp : Expects P (deliver chunk u) (frames.drop k) (records.drop k) :=
        ⟨⟨harr.expects.1.hs, harr.expects.1.keyed, harr.expects.1.state, harr.expects.1.fd⟩,
          harr.expects.2⟩
      have hund' : UnderwayOrGone P i name content hash frames records v (deliver chunk u) :=
        Or.inr ⟨k, hund.count, hexp, hpre, hund.phase, hund.delivered⟩
      have hfine : ∀ w ∈ frameTurns P E i fd ((deliver chunk u).ps.recv.length + 1)
          (deliver chunk u), True := fun _ _ => trivial
      have hloop := (frameTurns_inv (E := E) (F := fun _ => True)
        (fun w h _ => underway_step (w := w) fd hE hsize hmax hhash hzero hall hlen h) hund'
        hfine).2
      change UnderwayOrGone P i name content hash frames records v
        (processPeerFrames P E i fd (deliver chunk u)) at hloop
      rw [rxRun] at hlive ⊢
      rcases hloop with ⟨hhs, hses⟩ | ⟨k2, hk2⟩
      · have hsilent : Silent i (delivered i (processPeerFrames P E i fd (deliver chunk u)).sh.log)
            (processPeerFrames P E i fd (deliver chunk u)) := ⟨hhs, hses, rfl⟩
        exact absurd (hsilent.rxRun (P := P) (E := E) fd chunks).2.2.1 hlive
      · have hopen : (frameLoop P E i fd ((deliver chunk u).ps.recv.length + 1)
            (deliver chunk u)).ps.session ≠ none := hk2.expects.1.session_ne
        obtain ⟨k1, hk1⟩ := loop_frames (E := E) (i := i) hexp hpre
          (Nat.lt_succ_self _) (fun t _ => ⟨hE.memory _, hE.memory _⟩) hopen
        have harr' := harr.trans hk1
        have hsame : k + k1 = k2 := by
          have hdel := harr'.delivered
          change App.delivered i (processPeerFrames P E i fd (deliver chunk u)).sh.log = _ at hdel
          rw [hk2.delivered] at hdel
          have hl := congrArg List.length (List.append_cancel_left hdel)
          have h1 := harr'.count
          have h2 := hk2.count
          rw [List.length_take, List.length_take] at hl
          omega
        rw [← hsame] at hk2
        exact ih harr' hk2 hcut hlive

/--
The stream of a transfer, cut in any way, leaves the file: nothing is being received any more,
and a file that holds the content has been reported.
-/
theorem stream_received
    {chunks : List Bytes} {s : NoiseSession}
    (fd : Int) (hE : Willing E content.length) (hsize : content ≠ [])
    (hmax : content.length ≤ noxMaxFileSize)
    (hhash : P.generichash (be64 content.length ++ content) = hash) (hzero : hash ≠ Block.zero 32)
    (hall : Transferred name content hash records) (hup : LiveSession v)
    (hs : v.ps.session = some s) (hrecv : v.ps.recv = []) (hrx : v.ps.rxFile.active = false)
    (hdir : v.sh.downloadsDirFd ≥ 0) (hacc : Accepted P s frames records)
    (hbytes : chunks.flatten = encodeFrames v.ps.rxSeq frames)
    (hlive : (rxRun P E i fd chunks v).ps.session ≠ none) :
    (rxRun P E i fd chunks v).ps.rxFile.active = false ∧
      ∃ entry ops, fileOps (rxRun P E i fd chunks v).sh.log = ops ++ [.close i entry] ∧
        ∀ start, Directory.content start (fileOps (rxRun P E i fd chunks v).sh.log) entry =
          some content := by
  have hexp : Expects P v frames records := ⟨hup, s, hs, hacc⟩
  have harr : Arrived P i v v [] frames records 0 := by
    have hnone := Arrived.none_yet (i := i) hexp (by rw [hrecv]; exact List.nil_prefix)
      (by
        intro f _
        rw [hrecv, List.length_nil]
        exact Nat.succ_le_of_lt (by unfold frameHeaderWireSize; omega))
    rw [hrecv] at hnone
    exact hnone
  have hund : Underway P i name content hash frames records v 0 v :=
    ⟨Nat.zero_le _, hexp, by rw [hrecv]; exact List.nil_prefix, .waiting hrx hdir, by simp⟩
  obtain ⟨k, hk, hend⟩ := underway_run fd hE hsize hmax hhash hzero hall hacc.length harr hund
    (by rw [hbytes]; exact List.prefix_rfl) hlive
  have hdel := (hk.all hacc.length (by rw [← hbytes]; rfl)).2
  rw [hend.delivered] at hdel
  have hphase := hend.phase
  rw [List.append_cancel_left hdel] at hphase
  obtain ⟨parts, hfiles, hparts, -⟩ := hall.files
  rw [hfiles] at hphase
  cases hphase with
  | receiving active size count absorbed hash file more =>
      rw [hparts] at more
      exact absurd more (Nat.lt_irrefl _)
  | @done _ _ entry idle file report whole =>
      obtain ⟨ops, hops⟩ := report
      exact ⟨idle, entry, ops, hops, file⟩

end ReceiverRun

end App
end Noxtor
