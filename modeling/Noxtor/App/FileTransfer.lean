import Noxtor.App.Frame
import Noxtor.App.StateMachine

/-!
# File transfer

`file_transfer_start`, `file_transfer_handle_tx` and `file_transfer_handle_rx` of
`file_transfer.c` with their helpers.

A transfer is a METADATA record followed by the file in chunks of at most 4096 bytes.  The
sending side keeps one encrypted frame in `tx_buf` until the socket has taken all of it.
-/

namespace Noxtor
namespace App

open ByteString Noise

/-- The part after the last `/`. -/
def afterLastSlash (name : Bytes) : Bytes :=
  (name.reverse.takeWhile (· ≠ 0x2f)).reverse

/-- `basename` of `libgen.h`. -/
def basename (path : Bytes) : Bytes :=
  let trimmed := (path.reverse.dropWhile (· = 0x2f)).reverse
  if trimmed = [] then (if path = [] then [0x2e] else [0x2f]) else afterLastSlash trimmed

/-- The characters `sanitize_filename` lets through. -/
def allowedInName (c : UInt8) : Bool :=
  (0x61 ≤ c && c ≤ 0x7a) || (0x41 ≤ c && c ≤ 0x5a) || (0x30 ≤ c && c ≤ 0x39) ||
    c = 0x2e || c = 0x5f || c = 0x2d

/-- Every pair of dots becomes a pair of underscores. -/
def replaceDotDot : Bytes → Bytes
  | [] => []
  | [c] => [c]
  | c :: d :: rest =>
      if c = 0x2e ∧ d = 0x2e then 0x5f :: 0x5f :: replaceDotDot rest
      else c :: replaceDotDot (d :: rest)

/-- A leading dot becomes an underscore. -/
def replaceLeadingDot : Bytes → Bytes
  | [] => []
  | c :: rest => if c = 0x2e then 0x5f :: rest else c :: rest

/-- `%08x` of a 32-bit number. -/
def hex8 (x : UInt32) : Bytes :=
  hex (be32 x)

/-- `sanitize_filename`; `rnd` is the random number of the name given to an empty one. -/
def sanitizeFilename (rnd : UInt32) (maxLen : Nat) (name : Bytes) : Bytes :=
  let short := (afterLastSlash name).take (maxLen - 1)
  let filtered := short.map fun c => if allowedInName c then c else 0x5f
  let safe := replaceLeadingDot (replaceDotDot filtered)
  if safe = [] then ([0x66, 0x69, 0x6c, 0x65, 0x5f] ++ hex8 rnd).take (maxLen - 1) else safe

/-- "METADATA" with its NUL. -/
def metadataTag : Bytes :=
  [0x4d, 0x45, 0x54, 0x41, 0x44, 0x41, 0x54, 0x41, 0x00]

/-- The 305 bytes of a METADATA record: tag, name, size, hash. -/
def metadataBytes (name : Bytes) (size : Nat) (hash : Block 32) : Bytes :=
  metadataTag ++ (Block.ofBytes 256 name).toList ++ be64 size ++ hash.toList

theorem metadataBytes_length
    (name : Bytes) (size : Nat) (hash : Block 32) :
    (metadataBytes name size hash).length = 305 := by
  simp [metadataBytes, metadataTag]

section Tx

variable (P : Primitives) (E : Env) (i : Slot)

/-- Close the file and clear `tx_file`. -/
def txClear (v : View) : View :=
  v.setPs fun ps => { ps with txFile := { fd := -1 } }

/-- Open and check the source file: descriptor and size. -/
def openSource (v : View) : Option (Nat × Nat) × View :=
  match E.openFile v.sh.tick with
  | none => (none, v.tickOn.uiPrintError "Dosya açılamadı: %s" [])
  | some fileFd =>
      let v1 := v.tickOn
      match E.fileStat v1.sh.tick with
      | none => (none, v1.tickOn.uiPrintError "Dosya bilgisi alınamadı." [])
      | some st =>
          let v2 := v1.tickOn
          if !st.regular then (none, v2.uiPrintError "Düzenli dosya değil." [])
          else if !E.flock v2.sh.tick then
            (none, v2.tickOn.uiPrintError "Dosya kilitlenemedi: %s" [])
          else if st.size ≤ 0 then (none, v2.tickOn.uiPrintError "Geçersiz dosya boyutu." [])
          else if st.size.toNat > noxMaxFileSize then
            (none, v2.tickOn.uiPrintError "Dosya çok büyük (maksimum %llu MB)"
              [decimal (noxMaxFileSize / 1024 / 1024)])
          else (some (fileFd, st.size.toNat), v2.tickOn)

/-- One call of `crypto_generichash_init`, `_update` or `_final`. -/
def hashCall (message : String) (v : View) : Bool × View :=
  if E.hashOk v.sh.tick then (true, v.tickOn)
  else (false, v.tickOn.uiPrintError message [])

/-- The loop that hashes the source file. -/
def hashLoop : List ReadResult → Bytes → View → Option Bytes × View
  | [], acc, v => (some acc, v)
  | .data [] :: _, acc, v => (some acc, v)
  | .data b :: rest, acc, v =>
      match hashCall E "Hash güncellenemedi" v with
      | (true, v1) => hashLoop rest (acc ++ b.take 4096) v1
      | (false, v1) => (none, v1)
  | .eintr :: rest, acc, v => hashLoop rest acc v
  | .eagain :: _, _, v => (none, v.uiPrintError "Dosya okuma hatası: %s" [])
  | .err :: _, _, v => (none, v.uiPrintError "Dosya okuma hatası: %s" [])

/-- The hash of the size and the content, with the file rewound. -/
def hashSource (size : Nat) (v : View) : Option (Block 32) × View :=
  match hashCall E "Hash state başlatılamadı" v with
  | (false, v1) => (none, v1)
  | (true, v1) =>
      match hashCall E "Hash güncellenemedi" v1 with
      | (false, v2) => (none, v2)
      | (true, v2) =>
          match hashLoop E (E.hashReads v2.sh.tick) (be64 size) v2.tickOn with
          | (none, v3) => (none, v3)
          | (some absorbed, v3) =>
              match hashCall E "Hash tamamlanamadı" v3 with
              | (false, v4) => (none, v4)
              | (true, v4) =>
                  if !E.lseek v4.sh.tick then
                    (none, v4.tickOn.uiPrintError "Dosya işaretçisi sıfırlanamadı: %s" [])
                  else (some (P.generichash absorbed), v4.tickOn)

/-- The METADATA frame of `file_transfer_start`. -/
def sendMetadata (name : Bytes) (v : View) : View :=
  let tx := v.ps.txFile
  match noiseEncrypt P v.ps.session (.data (metadataBytes name tx.totalSize tx.hash)) true with
  | (none, session) =>
      txClear ((v.setPs fun ps => { ps with session := session }).uiPrintError
        "Metadata şifreleme hatası." [])
  | (some ct, session) =>
      let v1 := v.setPs fun ps => { ps with session := session }
      match sockWrite E i (frameBytes noxMsgFile v1.ps.txSeq ct) v1 with
      | (.ok n, v2) =>
          if n ≠ frameHeaderWireSize + ct.length then
            txClear (v2.uiPrintError "Metadata gönderim hatası." [])
          else
            (v2.setPs fun ps => { ps with txSeq := ps.txSeq + 1 }).uiPrintSystem
              "[*] Dosya transferi başlatıldı: %s (%lu byte)" [name, decimal tx.totalSize]
      | (_, v2) => txClear (v2.uiPrintError "Metadata gönderim hatası." [])

/-- `file_transfer_start`, once the active peer is known. -/
def fileTransferStart (filepath : Bytes) (v : View) : View :=
  if v.ps.fd < 0 ∨ v.ps.session = none then
    v.uiPrintError "Çevrimdışı dosyalar kuyruğa alınamaz. Aktif bir bağlantı gerekir." []
  else if v.ps.txFile.active then
    v.uiPrintError "Zaten aktif bir dosya transferi var." []
  else if filepath.length = 0 ∨ filepath.length ≥ noxPathMax then
    v.uiPrintError "Geçersiz dosya yolu." []
  else
    match openSource E v with
    | (none, v1) => v1
    | (some (fileFd, size), v1) =>
        let safeName := strCopy 255 (basename filepath)
        match hashSource P E size v1 with
        | (none, v2) => v2
        | (some hash, v2) =>
            let v3 := v2.setPs fun ps => { ps with txFile :=
              { active := true, fd := fileFd, filename := safeName,
                totalSize := size, hash := hash } }
            match sodiumMalloc E v3 with
            | (false, v4) => txClear (v4.uiPrintError "Bellek tahsisi başarısız" [])
            | (true, v4) =>
                sendMetadata P E i safeName
                  (v4.setPs fun ps => { ps with txFile := { ps.txFile with plainBuf := true } })

/-- The frame in `tx_buf` has left completely. -/
def txFrameDone (v : View) : View :=
  let v1 := v.setPs fun ps => { ps with
    txSeq := ps.txSeq + 1
    txFile := { ps.txFile with
      txBuf := []
      txOffset := 0
      sentBytes := ps.txFile.sentBytes + ps.txFile.currentChunkSize
      currentChunkSize := 0 } }
  if v1.ps.txFile.sentBytes ≥ v1.ps.txFile.totalSize then
    txClear (v1.uiPrintSystem "[✓] Dosya gönderimi tamamlandı (%lu byte)"
      [decimal v1.ps.txFile.totalSize])
  else
    v1.say .progress "" [v1.ps.txFile.filename, decimal v1.ps.txFile.sentBytes,
      decimal v1.ps.txFile.totalSize, decimal 1]

/-- The socket has taken `n` more bytes of the frame in `tx_buf`. -/
def txAdvance (n : Nat) (v : View) : View :=
  let v1 := touchLastActive E (v.setPs fun ps =>
    { ps with txFile := { ps.txFile with txOffset := ps.txFile.txOffset + n } })
  if v1.ps.txFile.txOffset = v1.ps.txFile.txLen then txFrameDone v1 else v1

/-- The first half of `file_transfer_handle_tx`: a frame is waiting in `tx_buf`. -/
def txFlush (v : View) : View :=
  match sockWrite E i v.ps.txFile.pending v with
  | (.ok n, v1) =>
      if n = 0 then
        txClear (v1.uiPrintError "Dosya gönderimi koptu (%s)" [ascii "write returned 0"])
      else txAdvance E n v1
  | (.eagain, v1) => v1
  | (.eintr, v1) => v1
  | (.err, v1) => txClear (v1.uiPrintError "Dosya gönderimi koptu (%s)" [])

/-- The encrypted chunk goes to `tx_buf`; it is written on later turns. -/
def txBuffer (chunk : Bytes) (v : View) : View :=
  let v1 := v.setPs fun ps =>
    { ps with txFile := { ps.txFile with currentChunkSize := chunk.length } }
  if frameHeaderWireSize + (chunk.length + noxMacLen) > txBufCapacity then
    txClear (v1.uiPrintError "Chunk boyutu tx_buf kapasitesini aşıyor" [])
  else
    match noiseEncrypt P v1.ps.session (.data chunk) true with
    | (none, session) =>
        txClear ((v1.setPs fun ps => { ps with session := session }).uiPrintError
          "Chunk şifreleme başarısız" [])
    | (some ct, session) =>
        if ct.length > 0 then
          v1.setPs fun ps => { ps with
            session := session
            txFile := { ps.txFile with
              txBuf := frameBytes noxMsgFile ps.txSeq ct
              txOffset := 0 } }
        else
          txClear ((v1.setPs fun ps => { ps with session := session }).uiPrintError
            "Chunk şifreleme başarısız" [])

/-- The second half of `file_transfer_handle_tx`: read and encrypt the next chunk. -/
def txNext (v : View) : View :=
  let remaining := v.ps.txFile.totalSize - v.ps.txFile.sentBytes
  if remaining = 0 then txClear v
  else
    match E.fileRead v.sh.tick with
    | .data b =>
        let chunk := b.take (min remaining 4096)
        if chunk = [] then
          txClear (v.tickOn.uiPrintError "Dosya gönderim sırasında kısaldı — transfer iptal" [])
        else txBuffer P chunk v.tickOn
    | .eintr => v.tickOn
    | .eagain => txClear (v.tickOn.uiPrintError "Yerel dosya okuma başarısız" [])
    | .err => txClear (v.tickOn.uiPrintError "Yerel dosya okuma başarısız" [])

/-- `file_transfer_handle_tx`. -/
def fileTransferHandleTx (v : View) : View :=
  if v.ps.fd < 0 ∨ v.ps.txFile.active = false then v
  else if v.ps.txFile.txLen > 0 then txFlush E i v
  else txNext P E v

end Tx

section Rx

variable (P : Primitives) (E : Env) (i : Slot)

/-- The loop of `write_to_file`: whether everything was written, and what was. -/
def writeToFile : List IoResult → Bytes → Bool × Bytes
  | _, [] => (true, [])
  | [], _ :: _ => (false, [])
  | .eintr :: rs, data => writeToFile rs data
  | .ok (n + 1) :: rs, data =>
      let r := writeToFile rs (data.drop (n + 1))
      (r.1, data.take (n + 1) ++ r.2)
  | _ :: _, _ => (false, [])

/-- "received_". -/
def receivedTag : Bytes :=
  [0x72, 0x65, 0x63, 0x65, 0x69, 0x76, 0x65, 0x64, 0x5f]

/-- An exclusive `openat` in the downloads directory. -/
def openatExcl (name : Bytes) (v : View) : OpenResult × View :=
  match E.openat v.sh.tick with
  | .fd fd => (.fd fd, v.tickOn.emit [.fileCreate i name])
  | .eexist => (.eexist, v.tickOn)
  | .err => (.err, v.tickOn)

/-- `open_recv_file`. -/
def openRecvFile (safeName : Bytes) (v : View) : Except NoxErr Nat × View :=
  if safeName.any (fun c => c = 0x2f || c = 0x5c) then (.error .config, v)
  else if v.sh.downloadsDirFd < 0 then (.error .config, v)
  else if !E.dirOk v.sh.tick then (.error .config, v.tickOn)
  else
    let localName := receivedTag ++ safeName
    if localName.length ≥ 300 then (.error .config, v.tickOn)
    else
      match openatExcl E i localName v.tickOn with
      | (.fd fd, v1) =>
          (.ok fd, v1.setPs fun ps => { ps with rxFile := { ps.rxFile with localName := localName } })
      | (.err, v1) => (.error .io, v1)
      | (.eexist, v1) =>
          let second := localName ++ [0x2e] ++ hex8 (E.random v1.sh.tick)
          if second.length ≥ 300 then (.error .config, v1.tickOn)
          else
            match openatExcl E i second v1.tickOn with
            | (.fd fd, v2) =>
                (.ok fd, v2.setPs fun ps =>
                  { ps with rxFile := { ps.rxFile with localName := second } })
            | (_, v2) => (.error .io, v2)

/-- Clear `rx_file` and leave `ST_FILE_RX`. -/
def rxFinish (v : View) : View :=
  (smDispatch P E i .fileDone (v.setPs fun ps => { ps with rxFile := { fd := -1 } })).2

/-- The label `rx_abort`. -/
def rxAbort (v : View) : View :=
  let unlinked : List Effect :=
    if v.sh.downloadsDirFd ≥ 0 ∧ v.ps.rxFile.localName ≠ [] then
      [.fileUnlink i v.ps.rxFile.localName]
    else []
  rxFinish P E i ((v.emit unlinked).uiPrintError
    "Transfer iptal edildi ve yarım kalan dosya silindi." [])

/-- A new transfer is accepted: `rx_file` is filled in and the state moves. -/
def rxBegin (fileFd : Nat) (safeName : Bytes) (size : Nat) (hash : Block 32) (v : View) : View :=
  let v1 := v.tickOn.setPs fun ps => { ps with rxFile := { ps.rxFile with
    active := true
    fd := fileFd
    expectedSize := size
    receivedBytes := 0
    lastChunkTs := E.clock v.sh.tick
    expectedHash := hash
    filename := strCopy 255 safeName } }
  let v2 := (smDispatch P E i .fileRxStart v1).2
  match hashCall E "Hash state başlatılamadı" v2 with
  | (false, v3) => rxAbort P E i v3
  | (true, v3) =>
      match hashCall E "Hash güncellenemedi" v3 with
      | (false, v4) => rxAbort P E i v4
      | (true, v4) =>
          (v4.setPs fun ps => { ps with rxFile := { ps.rxFile with hashState := be64 size } }).uiPrintSystem
            "[⬇] Gelen dosya: %s (%lu byte)" [safeName, decimal size]

/-- A METADATA record while no transfer is active. -/
def rxMetadata (pt : Bytes) (v : View) : View :=
  let safeName := sanitizeFilename (E.random v.sh.tick) 256 (cstr ((pt.drop 9).take 255))
  let size := ofBe ((pt.drop 265).take 8)
  let v1 := v.tickOn
  if size = 0 ∨ size > noxMaxFileSize then
    v1.uiPrintError
      "Gelen dosya reddedildi: Geçersiz veya çok büyük dosya boyutu (%lu byte)" [decimal size]
  else
    match E.statvfs v1.sh.tick with
    | none => v1.tickOn.uiPrintError "Disk alanı kontrol edilemedi" []
    | some (bavail, frsize) =>
        let v2 := v1.tickOn
        if bavail * frsize % 2 ^ 64 < size + size / 10 then
          v2.uiPrintError "Yetersiz disk alanı: %lu byte gerekli, %lu byte mevcut"
            [decimal (size + size / 10), decimal (bavail * frsize % 2 ^ 64)]
        else
          let hash := Block.ofBytes 32 (pt.drop 273)
          if hash = Block.zero 32 then
            v2.uiPrintError "Gelen METADATA reddedildi (geçersiz hash)" []
          else
            match openRecvFile E i safeName (v2.setPs fun ps => { ps with rxFile := {} }) with
            | (.error _, v3) => v3.uiPrintError "Gelen dosya (%s) oluşturulamadı" [safeName]
            | (.ok fileFd, v3) => rxBegin P E i fileFd safeName size hash v3

/-- The last chunk is in: compare the hash and finish. -/
def rxComplete (v : View) : View :=
  let unlinked : List Effect := [.fileUnlink i v.ps.rxFile.localName]
  if !E.hashOk v.sh.tick then rxFinish P E i (v.tickOn.emit unlinked)
  else if P.generichash v.ps.rxFile.hashState = v.ps.rxFile.expectedHash then
    rxFinish P E i ((v.tickOn.emit [.fileDone i v.ps.rxFile.localName]).uiPrintSystem
      "[✓] Dosya başarıyla alındı: %s" [v.ps.rxFile.filename])
  else
    rxFinish P E i ((v.tickOn.emit unlinked).uiPrintError
      "HATA: Alinan dosyanin (%s) hash'i uyusmuyor!" [v.ps.rxFile.filename])

/-- A chunk of the file that is being received. -/
def rxData (pt : Bytes) (v : View) : View :=
  let rx := v.ps.rxFile
  if rx.receivedBytes > rx.expectedSize then rxAbort P E i v
  else if rx.expectedSize - rx.receivedBytes = 0 then rxAbort P E i v
  else
    let data := pt.take (rx.expectedSize - rx.receivedBytes)
    let written := writeToFile (E.fileWrites v.sh.tick) data
    let v1 := v.tickOn.emit [.fileWrite i rx.localName written.2]
    if !written.1 then rxAbort P E i v1
    else if !E.hashOk v1.sh.tick then rxAbort P E i v1.tickOn
    else
      let v2 := v1.tickOn
      let v3 := v2.tickOn.setPs fun ps => { ps with rxFile := { ps.rxFile with
        hashState := ps.rxFile.hashState ++ data
        receivedBytes := ps.rxFile.receivedBytes + data.length
        lastChunkTs := E.clock v2.sh.tick } }
      if v3.ps.rxFile.receivedBytes ≥ v3.ps.rxFile.expectedSize then
        if v3.ps.rxFile.receivedBytes ≠ v3.ps.rxFile.expectedSize then rxAbort P E i v3
        else rxComplete P E i v3
      else
        v3.say .progress "" [v3.ps.rxFile.filename, decimal v3.ps.rxFile.receivedBytes,
          decimal v3.ps.rxFile.expectedSize, decimal 0]

/-- The body of `file_transfer_handle_rx` after the decryption. -/
def rxRecord (pt : Bytes) (v : View) : View :=
  if pt.length = 305 ∧ pt.take 9 = metadataTag then
    if v.ps.rxFile.active then rxAbort P E i v else rxMetadata P E i pt v
  else if v.ps.rxFile.active then rxData P E i pt v
  else v

/-- The message of a FILE frame that cannot be opened. -/
def rxDecryptError : String :=
  "Hata: Akran bağlantısında geçersiz sıra numarası algılandı (Replay Attack veya paket kaybı)!"

/-- `file_transfer_handle_rx`. -/
def fileTransferHandleRx (payload : Bytes) (v : View) : Bool × View :=
  if payload.length < noxMacLen ∨ payload.length > 4096 + noxMacLen then
    (false, v.uiPrintError "Gecersiz payload uzunlugu: %u" [decimal payload.length])
  else
    match sodiumMalloc E v with
    | (false, v1) => (false, v1.uiPrintError "Bellek tahsisi basarisiz." [])
    | (true, v1) =>
        let opened := noiseDecrypt P v1.ps.session (.data payload) true
        let v2 := v1.setPs fun ps => { ps with session := opened.2 }
        match opened.1 with
        | some (b :: pt) => (true, rxRecord P E i (b :: pt) (v2.emit [.fileRecord i (b :: pt)]))
        | _ =>
            if v2.ps.rxFile.active then (true, rxAbort P E i (v2.uiPrintError rxDecryptError []))
            else (true, v2.uiPrintError rxDecryptError [])

/-- `file_transfer_chunk_expired`. -/
def fileTransferChunkExpired (last now timeoutSec : Int) : Bool :=
  now - last > timeoutSec

end Rx

end App
end Noxtor
