import Noxtor.App.FileReceiver

/-!
# File transfer from end to end

What one program puts on the wire is what another one reads from it.  A transfer that the sender
reports complete arrives as a whole, however the local reads, the writes to the socket and the
reads from the stream are cut and whatever texts are sent in between, under three conditions: no
text is written while a file frame waits in `tx_buf`, no chunk looks like a METADATA record, and
the hash of the file is not all zero.
-/

namespace Noxtor
namespace App

open ByteString Noise

section Stream

variable {P : Primitives} {k : Key} {n : UInt64} {records : List (UInt8 × Bytes)}

/-- The AEAD opens what it has sealed. -/
def Opens (P : Primitives) (k : Key) : Prop :=
  ∀ n pt, P.aeadDecrypt k (encodeNonce n) [] (sealedAt P k n pt) = some pt

theorem noiseDecrypt_sealed
    {s : NoiseSession} {pt : Bytes} (hopen : Opens P k)
    (hs : s.rx = { k := k, n := n, hasKey := true }) (hlt : n < uint64Max)
    (hlen : pt.length ≤ noxMaxMsgLen) :
    noiseDecrypt P (some s) (.data (sealedAt P k n pt)) true =
      (some pt, some { s with rx := { k := k, n := n + 1, hasKey := true } }) := by
  have hsize : (sealedAt P k n pt).length = pt.length + 16 := P.aeadEncrypt_length _ _ _ _
  have hmax : noxMaxMsgLen = 4096 := rfl
  have h1 : ¬ (sealedAt P k n pt).length > noiseMaxPayloadLen := by
    rw [hsize]
    show ¬ pt.length + 16 > 4096 + 16
    omega
  have h2 : ¬ (sealedAt P k n pt).length < noxMacLen := by
    rw [hsize]
    show ¬ pt.length + 16 < 16
    omega
  have h3 : ¬ uint64Max ≤ n := by
    rw [UInt64.not_le]
    exact hlt
  simp [noiseDecrypt, cipherDecrypt, h1, h2, h3, hs, hopen n pt]

/-- The receiver takes the sealed records, if its counter is that of the sender. -/
theorem accepted_sealed
    {s : NoiseSession} (hopen : Opens P k) (hs : s.rx = { k := k, n := n, hasKey := true })
    (hn : n.toNat + records.length < 2 ^ 64) (hformed : ∀ r ∈ records, WellFormedRecord r) :
    Accepted P s (sealRecords P k n records) records := by
  induction records generalizing n s with
  | nil =>
      exact .nil s
  | cons r records ih =>
      obtain ⟨type, pt⟩ := r
      obtain ⟨htype, hne, hlen⟩ := hformed (type, pt) List.mem_cons_self
      rw [List.length_cons] at hn
      have hlt : n < uint64Max := by
        rw [UInt64.lt_iff_toNat_lt, uint64Max_toNat]
        omega
      have hsize : (sealedAt P k n pt).length = pt.length + 16 := P.aeadEncrypt_length _ _ _ _
      have hpos := List.length_pos_iff.mpr hne
      refine .cons htype ⟨by omega, ?_⟩ (noiseDecrypt_sealed hopen hs hlt hlen) hne
        (ih rfl ?_ fun r hr => hformed r (List.mem_cons_of_mem _ hr))
      · rw [hsize]
        exact Nat.add_le_add_right hlen 16
      · rw [toNat_succ_of_lt hlt]
        omega

end Stream

/-- The slot is in session under these counters, with an empty buffer, and receives no file. -/
structure CanReceive (v : View) (k : Key) (n : UInt64) (seq : UInt32) : Prop where
  live : LiveSession v
  session : ∃ s, v.ps.session = some s ∧ s.rx = { k := k, n := n, hasKey := true }
  number : v.ps.rxSeq = seq
  recv : v.ps.recv = []
  rxFile : v.ps.rxFile.active = false
  dir : v.sh.downloadsDirFd ≥ 0

/-- Nothing is being received, and a file that holds `content` was the last thing reported. -/
def HasReceived (i : Slot) (content : Bytes) (v : View) : Prop :=
  v.ps.rxFile.active = false ∧
    ∃ entry ops, fileOps v.sh.log = ops ++ [.close i entry] ∧
      ∀ start, Directory.content start (fileOps v.sh.log) entry = some content

/--
File transfer round trip.  The sender, with environment `E`, starts a transfer of `content` and
takes any steps up to the one that reports completion; the receiver, with environment `E'`, reads
what the socket of the sender has taken since then, in any pieces.
-/
theorem file_round_trip
    (P : Primitives) (E E' : Env) (i j : Slot) (fd : Int) (k : Key) (n : UInt64) (seq : UInt32)
    (filepath content : Bytes) (v w : View) (ops : List TxOp) (chunks : List Bytes)
    (hopen : Opens P k) (hsize : content ≠ []) (hmax : content.length ≤ noxMaxFileSize)
    (hfile : HoldsFile E content) (hsender : CanStart v k n seq) (hreceiver : CanReceive w k n seq)
    (hwilling : Willing E' content.length)
    (hzero : P.generichash (be64 content.length ++ content) ≠ Block.zero 32)
    (hrun : Transfer P E i content (fileTransferStart P E i filepath v) (ops ++ [.handle]))
    (hdone : ReportsDone P E i (txRun P E i (fileTransferStart P E i filepath v) ops))
    (hstream : sentOn i (txRun P E i (fileTransferStart P E i filepath v)
      (ops ++ [.handle])).sh.log = sentOn i v.sh.log ++ chunks.flatten)
    (hlive : (rxRun P E' j fd chunks w).ps.session ≠ none) :
    HasReceived j content (rxRun P E' j fd chunks w) := by
  obtain ⟨records, hsent⟩ := transfer_sent hfile hsender hrun hdone
  have hbytes : chunks.flatten = encodeFrames seq (sealRecords P k n records) := by
    have hwire := hsent.wire
    rw [hstream] at hwire
    exact List.append_cancel_left hwire
  obtain ⟨s, hs, hrx⟩ := hreceiver.session
  rw [← hreceiver.number] at hbytes
  exact stream_received fd hwilling hsize hmax rfl hzero ⟨hsent.formed, hsent.files⟩
    hreceiver.live hs hreceiver.recv hreceiver.rxFile hreceiver.dir
    (accepted_sealed hopen hrx hsent.nonces hsent.formed) hbytes hlive

/-- Three bytes, read one and two at a time; the socket takes ten bytes and then none at first. -/
def pieceEnv : Env :=
  { sampleEnv with
    fileStat := fun _ => some ⟨true, 3⟩
    hashReads := fun _ => [.eintr, .data [1, 2], .data [3], .data []]
    fileRead := fun t => if t = 16 then .data [1] else .data [2, 3]
    write := fun t => if t = 17 then .ok 10 else if t = 19 then .eagain else .ok 65536 }

/-- A message before the first chunk and a text of the queue between the two. -/
def pieceOps : List TxOp :=
  [.message [0x68, 0x69], .handle, .handle, .handle, .handle, .queued [0x71], .handle]

theorem senderSlot_lt : 0 < 16 := by
  decide

/-- The slot of the sender. -/
def senderSlot : Slot :=
  ⟨0, senderSlot_lt⟩

/-- The sender behind the start of its transfer. -/
def pieceStart : View :=
  fileTransferStart samplePrimitives pieceEnv senderSlot [0x66] sampleView

/-- What the socket has taken in the end. -/
def pieceWire : Bytes :=
  sentOn senderSlot
    (txRun samplePrimitives pieceEnv senderSlot pieceStart (pieceOps ++ [.handle])).sh.log

/-- The slot that receives from `sampleView`. -/
def receiverView : View :=
  { ps := { fd := 5, state := .active, session := some { sampleSession with
      rx := { k := (samplePair 1).pub, n := 0, hasKey := true } } }
    sh := { downloadsDirFd := 4 } }

theorem receiverView_canReceive : CanReceive receiverView (samplePair 1).pub 0 0 where
  live := ⟨rfl, ⟨_, rfl, rfl⟩, Or.inl rfl, by decide⟩
  session := ⟨_, rfl, rfl⟩
  number := rfl
  recv := rfl
  rxFile := rfl
  dir := by decide

theorem sampleView_canStart : CanStart sampleView (samplePair 1).pub 0 0 where
  session := ⟨sampleSession, rfl, rfl⟩
  live := by decide
  number := rfl
  txFile := rfl

theorem sampleEnv_willing
    {size : Nat} (h : size + size / 10 ≤ 4096 * 1048576) : Willing sampleEnv size where
  memory := fun _ => rfl
  hash := fun _ => rfl
  dir := fun _ => rfl
  disk := fun _ => ⟨4096, 1048576, rfl, h⟩
  opens := fun _ => Or.inl ⟨10, rfl⟩
  writes := by
    intro t data hlen
    change (writeToFile [.ok 65536] data).1 = true
    cases data with
    | nil => rfl
    | cons b data =>
        have hdrop : (b :: data).drop 65536 = [] := List.drop_of_length_le (by omega)
        rw [writeToFile, hdrop]
        · rfl
        · exact List.cons_ne_nil b data

theorem pieceEnv_holds : HoldsFile pieceEnv [1, 2, 3] where
  size := by
    intro t st hst
    rw [← Option.mem_some_iff.mp hst]
    rfl
  reads := by
    intro t c hc
    exact (Option.mem_some_iff.mp hc).symm

/-- The stream is read in two pieces. -/
theorem file_round_trip_pieces :
    HasReceived 3 [1, 2, 3] (rxRun samplePrimitives sampleEnv 3 5
      [pieceWire.take 40, pieceWire.drop 40] receiverView) :=
  file_round_trip samplePrimitives pieceEnv sampleEnv 0 3 5 (samplePair 1).pub 0 0 [0x66]
    [1, 2, 3] sampleView receiverView pieceOps [pieceWire.take 40, pieceWire.drop 40]
    (fun n pt => samplePrimitives_open_seal _ _ _ _) (by decide) (by decide) pieceEnv_holds
    sampleView_canStart receiverView_canReceive (sampleEnv_willing (by decide))
    (by decide +kernel) (by decide +kernel) (by unfold ReportsDone; decide +kernel)
    (by decide +kernel) (by decide +kernel)

/-- A file of the size of an announcement that begins like one. -/
def taggedContent : Bytes :=
  metadataTag ++ List.replicate 296 0x21

/-- It is read at once. -/
def taggedEnv : Env :=
  { sampleEnv with
    fileStat := fun _ => some ⟨true, 305⟩
    hashReads := fun _ => [.data taggedContent, .data []]
    fileRead := fun _ => .data taggedContent }

/-- The sender behind the start of its transfer. -/
def taggedStart : View :=
  fileTransferStart samplePrimitives taggedEnv senderSlot [0x66] sampleView

/-- What the socket has taken in the end. -/
def taggedWire : Bytes :=
  sentOn senderSlot
    (txRun samplePrimitives taggedEnv senderSlot taggedStart [.handle, .handle]).sh.log

theorem taggedEnv_holds : HoldsFile taggedEnv taggedContent where
  size := by
    have hlen : taggedContent.length = 305 := by decide +kernel
    intro t st hst
    rw [← Option.mem_some_iff.mp hst, hlen]
    rfl
  reads := by
    have hreads : fileReads [.data taggedContent, .data []] = some taggedContent := by
      decide +kernel
    intro t c hc
    change c ∈ fileReads [.data taggedContent, .data []] at hc
    rw [hreads] at hc
    exact (Option.mem_some_iff.mp hc).symm

/--
The sender reports the transfer complete; the receiver takes the only chunk for an announcement,
aborts, and deletes the file.
-/
theorem file_round_trip_tagged :
    HoldsFile taggedEnv taggedContent ∧
    CanStart sampleView (samplePair 1).pub 0 0 ∧
    CanReceive receiverView (samplePair 1).pub 0 0 ∧
    Willing sampleEnv taggedContent.length ∧
    StepReads taggedEnv taggedContent taggedStart .handle ∧
    ReportsDone samplePrimitives taggedEnv 0
      (txRun samplePrimitives taggedEnv 0 taggedStart [.handle]) ∧
    (rxRun samplePrimitives sampleEnv 3 5 [taggedWire] receiverView).ps.session ≠ none ∧
    ¬ HasReceived 3 taggedContent
      (rxRun samplePrimitives sampleEnv 3 5 [taggedWire] receiverView) := by
  refine ⟨taggedEnv_holds, sampleView_canStart, receiverView_canReceive,
    sampleEnv_willing (by decide +kernel), by decide +kernel, by unfold ReportsDone; decide +kernel,
    by decide +kernel, ?_⟩
  rintro ⟨-, entry, ops, hops, -⟩
  have hlog : fileOps (rxRun samplePrimitives sampleEnv 3 5 [taggedWire] receiverView).sh.log =
      [.create 3 (receivedTag ++ [0x66]), .unlink 3 (receivedTag ++ [0x66])] := by
    decide +kernel
  rw [hlog] at hops
  have hlast := congrArg List.getLast? hops
  simp at hlast

end App
end Noxtor
