import Noxtor.App.PeerFrames

/-!
# Lines of the user

`tofu_user_response` and `process_line` of `stdin_handler.c`: the answer to a TOFU prompt,
the commands and the message path.

A command that works on one slot is a function on its view; the functions here choose the
slot.
-/

namespace Noxtor
namespace App

open ByteString Noise

/-- The slots in the order of the array. -/
def slots : List Slot :=
  List.finRange noxMaxPeers

/-- The slots that wait for an answer of the user. -/
def pendingSlots (s : AppState) : List Slot :=
  slots.filter fun i => (s.peers i).state = .tofuPending

/-- The first unused slot. -/
def freeSlot (s : AppState) : Option Slot :=
  slots.find? fun i => (s.peers i).fd = -1 ∧ (s.peers i).state = .idle

/-- `active_peer_count`. -/
def activePeerCount (s : AppState) : Nat :=
  (slots.filter fun i => 0 ≤ (s.peers i).fd).length

/-- The first slot with an open socket to an address. -/
def connectedTo (s : AppState) (onion : Bytes) : Option Slot :=
  slots.find? fun i => 0 ≤ (s.peers i).fd ∧ (s.peers i).peerOnion = onion

section Line

variable (P : Primitives) (E : Env)

/-- `find_peer_by_name_or_onion`. -/
def findPeerByNameOrOnion (s : AppState) (arg : Bytes) : Option Slot × AppState :=
  let named := slots.find? fun i =>
    ¬ ((s.peers i).fd < 0 ∧ (s.peers i).state = .idle) ∧
      (((s.peers i).name ≠ [] ∧ (s.peers i).name = arg) ∨ (s.peers i).peerOnion = arg)
  match named with
  | some i => (some i, s)
  | none =>
      if s.sh.ghostMode then (none, s)
      else
        let r := dbGetContact E arg s.sh
        let s1 := { s with sh := r.2 }
        match r.1 with
        | .ok _ => (connectedTo s1 arg, s1)
        | .error _ => (none, s1)

/-- The snapshot is renewed for the slot as it is now, and its fingerprint shown. -/
def tofuRearm (i : Slot) (v : View) : View :=
  let v1 := v.setSh fun sh => { sh with
    tofuPromptEpoch := v.ps.tofuEpoch
    tofuPromptFp := v.ps.tofuNewKey
    log := sh.log ++
      [.arm .answer v.ps.tofuEpoch v.ps.tofuNewKey, .showFp i (hex v.ps.tofuNewKey.toList)] }
  v1.uiPrintError
    "[!] TOFU onay PENCERESİ DEĞİŞTİ — bağlantı yenilenmiş olabilir (slot %zu).\n      Doğrulanacak fingerprint: %s\n      fp ekrandakiyle eşleşiyorsa onaylamak için tekrar 'y' yazın."
    [decimal i.val, hex v.ps.tofuNewKey.toList]

/-- The snapshot has been answered. -/
def tofuDisarm (v : View) : View :=
  v.setSh fun sh => { sh with tofuPromptEpoch := 0 }

/-- A yes for the only pending slot. -/
def tofuAnswerYes (i : Slot) (v : View) : View :=
  if v.ps.tofuEpoch ≠ v.sh.tofuPromptEpoch ∨ v.ps.tofuNewKey ≠ v.sh.tofuPromptFp then
    tofuRearm i v
  else
    match smDispatch P E i .tofuAccepted v with
    | (.ok (), v1) => tofuDisarm v1
    | (.error _, v1) => (smDispatch P E i .peerDisconnected (tofuDisarm v1)).2

/-- A no for the only pending slot. -/
def tofuAnswerNo (i : Slot) (v : View) : View :=
  (smDispatch P E i .tofuRejected
    ((tofuDisarm v).uiPrintSystem "[*] Bağlantı reddedildi." [])).2

/-- `tofu_user_response`. -/
def tofuUserResponse (accept : Bool) (s : AppState) : AppState :=
  match pendingSlots s with
  | [] => s
  | [i] => s.onSlot i (if accept then tofuAnswerYes P E i else tofuAnswerNo P E i)
  | pending =>
      let s1 := s.uiPrintError
        "Birden fazla TOFU bekleyen bağlantı var (%u). Lütfen önce /disconnect ile birini kapatın veya tek TOFU kalana dek bekleyin."
        [decimal pending.length]
      pending.foldl (fun t (i : Slot) => t.uiPrintSystem "  - slot %u: %s (%s)"
        [decimal i.val,
          if (s.peers i).tofuOnion ≠ [] then (s.peers i).tofuOnion else ascii "?",
          if (s.peers i).tofuName ≠ [] then (s.peers i).tofuName else ascii "?"]) s1

/-- The undo code of `/connect`. -/
def dialUndo (v : View) : View :=
  v.setPs fun ps => { ps with fd := -1, peerOnion := [], connectTarget := [] }

/-- The first handshake message of `/connect`. -/
def dialHello (i : Slot) (target : Bytes) (v : View) : View :=
  let failure := "Handshake başlatılamadı — bağlantı kesildi"
  match v.ps.hs with
  | none => rejectHandshake P E i failure v
  | some hs =>
      let v1 := hsTicks v
      match handshakeWrite P (hsCallAt E v.sh.tick) (.null 0) (some noiseMaxHandshakeLen) hs with
      | .error _ hs' =>
          rejectHandshake P E i failure (v1.setPs fun ps => { ps with hs := some hs' })
      | .ok msg hs' =>
          let v2 := v1.setPs fun ps => { ps with hs := some hs' }
          match sockWrite E i (frameBytes noxMsgCtrl v2.ps.txSeq msg) v2 with
          | (.ok n, v3) =>
              if n ≠ frameHeaderWireSize + msg.length then rejectHandshake P E i failure v3
              else
                let v4 := touchLastActive E
                  (v3.setPs fun ps => { ps with txSeq := ps.txSeq + 1 })
                (v4.uiPrintSystem "[*] handshake başlatıldı" []).setSh fun sh => { sh with
                  activePeerIdx := i.val
                  activePeerOnion := strCopy noxOnionLen target }
          | (_, v3) => rejectHandshake P E i failure v3

/-- `/connect` from the open socket on. -/
def dialSlot (i : Slot) (target : Bytes) (peerFd : Nat) (v : View) : View :=
  let v1 := v.setPs fun ps => { ps with
    fd := peerFd
    peerOnion := strCopy noxOnionLen target
    connectTarget := strCopy noxOnionLen target }
  if !E.epollAdd v1.sh.tick then
    (dialUndo v1.tickOn).uiPrintError "bağlantı kayıt hatası" []
  else
    match sodiumMalloc E v1.tickOn with
    | (false, v2) =>
        dialUndo ((v2.setPs fun ps => { ps with hs := none }).uiPrintError "arena dolu" [])
    | (true, v2) =>
        match handshakeInit P true v2.sh.myStaticPriv v2.sh.myStaticPub with
        | .error _ =>
            (dialUndo (v2.setPs fun ps => { ps with hs := none })).uiPrintError
              "Handshake başlatılamadı" []
        | .ok hs =>
            let v3 := hsTicks (v2.setPs fun ps => { ps with
              hs := some hs
              handshakeStart := E.clock v2.sh.tick
              lastActive := E.clock (v2.sh.tick + 1) })
            match smDispatch P E i .connectCmd v3 with
            | (.error _, v4) =>
                (dialUndo (v4.setPs fun ps => { ps with hs := none })).uiPrintError
                  "Bağlantı durumu uygun değil" []
            | (.ok (), v4) =>
                dialHello P E i target (v4.emit [.dialled i (strCopy noxOnionLen target)])

/-- The outbound budget: five attempts in a window of sixty seconds. -/
def outboundWindow (now : Int) (sh : Shared) : Shared :=
  if now - sh.hsWindowStart ≥ 60 then { sh with hsAttemptCount := 0, hsWindowStart := now } else sh

/-- `/connect`. -/
def connectCommand (target : Bytes) (s : AppState) : AppState :=
  if validateOnionInput target = false then
    s.uiPrintError "Geçersiz onion adresi (sadece .onion adresleri desteklenir)" []
  else if target = s.sh.onionAddr.take noxOnionLen then
    s.uiPrintError "kendi adresinize bağlanamazsınız" []
  else
    match freeSlot s with
    | none => s.uiPrintError "maksimum peer sayısına ulaşıldı" []
    | some i =>
        if slots.any (fun j => j ≠ i ∧ 0 ≤ (s.peers j).fd ∧ (s.peers j).peerOnion = target) then
          s.uiPrintError "Bu peer'a zaten bağlı" []
        else
          let sh1 := outboundWindow (E.clock s.sh.tick) { s.sh with tick := s.sh.tick + 1 }
          let s1 := { s with sh := sh1 }
          if sh1.hsAttemptCount ≥ 5 then
            s1.uiPrintError "Çok fazla handshake denemesi — biraz bekleyin." []
          else
            let s2 := { s1 with sh := { sh1 with
              hsAttemptCount := sh1.hsAttemptCount + 1, tick := sh1.tick + 1 } }
            match E.socks5Connect sh1.tick with
            | none => s2.uiPrintError "bağlantı başarısız" []
            | some peerFd => s2.onSlot i (dialSlot P E i target peerFd)

/-- A message to slot `i`, with the line that reports the outcome. -/
def sendAndReport (i : Slot) (msg : Bytes) (s : AppState) : AppState :=
  s.onSlot i fun v =>
    match sendSegmentedMessageTo P E i msg v with
    | (.ok (), v1) => v1.say .outgoing "%s" [msg]
    | (.error _, v1) => v1.uiPrintError "Şifreleme/Gönderim hatası" []

/-- The active peer, if it has a session and a socket. -/
def sendablePeer (s : AppState) : Option Slot :=
  match s.activePeer with
  | none => none
  | some i => if (s.peers i).session = none ∨ (s.peers i).fd < 0 then none else some i

/-- Leading blanks are skipped. -/
def skipBlanks (l : Bytes) : Bytes :=
  l.dropWhile (· = 0x20)

/-- The next word and the rest of the line behind it. -/
def nextWord (l : Bytes) : Bytes × Bytes :=
  (l.takeWhile (· ≠ 0x20), l.dropWhile (· ≠ 0x20))

/-- `tolower` in the C locale. -/
def toLower (c : UInt8) : UInt8 :=
  if 0x41 ≤ c ∧ c ≤ 0x5a then c + 0x20 else c

/-- "y" or "yes", in any case. -/
def isYes (line : Bytes) : Bool :=
  line.map toLower = [0x79] || line.map toLower = [0x79, 0x65, 0x73]

/-- "n" or "no", in any case. -/
def isNo (line : Bytes) : Bool :=
  line.map toLower = [0x6e] || line.map toLower = [0x6e, 0x6f]

/-- The number of leading slashes. -/
def slashCount (line : Bytes) : Nat :=
  (line.takeWhile (· = 0x2f)).length

/-- "/quit" and "/exit". -/
def cmdQuit : List Bytes :=
  [[0x2f, 0x71, 0x75, 0x69, 0x74], [0x2f, 0x65, 0x78, 0x69, 0x74]]
/-- "/help". -/
def cmdHelp : Bytes := [0x2f, 0x68, 0x65, 0x6c, 0x70]
/-- "/addr". -/
def cmdAddr : Bytes := [0x2f, 0x61, 0x64, 0x64, 0x72]
/-- "/add ". -/
def cmdAdd : Bytes := [0x2f, 0x61, 0x64, 0x64, 0x20]
/-- "/msg ". -/
def cmdMsg : Bytes := [0x2f, 0x6d, 0x73, 0x67, 0x20]
/-- "/connect ". -/
def cmdConnect : Bytes := [0x2f, 0x63, 0x6f, 0x6e, 0x6e, 0x65, 0x63, 0x74, 0x20]
/-- "/file ". -/
def cmdFile : Bytes := [0x2f, 0x66, 0x69, 0x6c, 0x65, 0x20]
/-- "/list". -/
def cmdList : Bytes := [0x2f, 0x6c, 0x69, 0x73, 0x74]
/-- "/switch ". -/
def cmdSwitch : Bytes := [0x2f, 0x73, 0x77, 0x69, 0x74, 0x63, 0x68, 0x20]
/-- "/disconnect". -/
def cmdDisconnect : Bytes :=
  [0x2f, 0x64, 0x69, 0x73, 0x63, 0x6f, 0x6e, 0x6e, 0x65, 0x63, 0x74]
/-- "/status". -/
def cmdStatus : Bytes := [0x2f, 0x73, 0x74, 0x61, 0x74, 0x75, 0x73]
/-- "/history". -/
def cmdHistory : Bytes := [0x2f, 0x68, 0x69, 0x73, 0x74, 0x6f, 0x72, 0x79]

/-- The text of `/help`. -/
def helpText : String :=
  "Komutlar:\n  /help               — bu yardımı göster\n  /quit               — uygulamadan çık\n  /addr               — .onion adresini göster\n  /connect <onion>    — peer'a bağlan\n  /disconnect         — aktif peer bağlantısını kes\n  /add <onion> <isim> — rehbere kişi ekle\n  /list               — rehberi ve çevrimiçi durumu listele\n  /switch <isim|onion>— aktif peer'ı değiştir\n  /msg <onion> <msj>  — mesaj gönder (çevrimdışıysa kuyruğa ekler)\n  /file <dosya_yolu>  — peer'a dosya gönder\n  //mesaj             — '/' ile başlayan mesaj gönder (örn. //hello → /hello)\n  Ctrl+P              — çıkış\n\nBağlantı kurulduktan sonra yazdığınız her şey mesaj olarak gönderilir."

/-- `/add`. -/
def addCommand (args : Bytes) (s : AppState) : AppState :=
  if s.sh.ghostMode then s.uiPrintError "ghost mod aktif — rehbere kişi eklenemez" []
  else
    let (onion, rest) := nextWord (skipBlanks args)
    let name := skipBlanks rest
    if onion.length ≠ noxOnionLen ∨ rest = [] then
      s.uiPrintError "Geçersiz kullanım. Örnek: /add <onion> <isim>" []
    else if validateOnionInput onion = false then
      s.uiPrintError "Geçersiz onion adresi formatı (56 base32 karakter + .onion)" []
    else if name = [] then s.uiPrintError "Geçersiz kullanım. Örnek: /add <onion> <isim>" []
    else if name.length > noxContactNameLen then 
      s.uiPrintError "İsim çok uzun (max %u)" [decimal noxContactNameLen]
    else if name.any (fun c => c = 0x0a || c = 0x0d || c = 0x1b) then
      s.uiPrintError "İsim kontrol karakteri içeremez" []
    else
      match dbAddContact E onion name (Block.zero 32) s.sh with
      | (.ok (), sh1) =>
          { s with sh := sh1 }.uiPrintSystem "[✓] Rehbere kaydedildi: %s (%s)" [name, onion]
      | (.error _, sh1) => { s with sh := sh1 }.uiPrintError "Veritabanı hatası" []

/-- `/msg`. -/
def msgCommand (args : Bytes) (s : AppState) : AppState :=
  let (onion, rest) := nextWord (skipBlanks args)
  let msg := skipBlanks rest
  if onion.length ≠ noxOnionLen ∨ rest = [] then
    s.uiPrintError "Geçersiz kullanım. Örnek: /msg <onion> <mesaj>" []
  else if validateOnionInput onion = false then
    s.uiPrintError "Geçersiz onion adresi (56 base32 karakter + .onion)" []
  else if msg = [] then s.uiPrintError "Geçersiz kullanım. Örnek: /msg <onion> <mesaj>" []
  else
    let r := findPeerByNameOrOnion E s onion
    match r.1.filter fun i => (r.2.peers i).session.isSome ∧ 0 ≤ (r.2.peers i).fd with
    | some i => sendAndReport P E i msg r.2
    | none =>
        if r.2.sh.ghostMode then
          r.2.uiPrintError "ghost mod aktif — çevrimdışı mesaj kuyruğa alınamaz" []
        else
          match queueSegmentedMessage E onion msg r.2.sh with
          | (.ok (), sh1) =>
              { r.2 with sh := sh1 }.uiPrintSystem
                "[*] Mesaj kuyruğa eklendi (akran çevrimdışı)" []
          | (.error _, sh1) =>
              { r.2 with sh := sh1 }.uiPrintError "Kuyruğa ekleme başarısız" []

/-- `/file`. -/
def fileCommand (args : Bytes) (s : AppState) : AppState :=
  match sendablePeer s with
  | none => s.uiPrintError "Aktif bağlantı yok — /file için önce /connect" []
  | some i => s.onSlot i (fileTransferStart P E i (skipBlanks args))

/-- "●". -/
def onlineMark : Bytes := [0xe2, 0x97, 0x8f]
/-- "○". -/
def offlineMark : Bytes := [0xe2, 0x97, 0x8b]
/-- "(çevrimiçi)". -/
def onlineText : Bytes :=
  [0x28, 0xc3, 0xa7, 0x65, 0x76, 0x72, 0x69, 0x6d, 0x69, 0xc3, 0xa7, 0x69, 0x29]

/-- `list_visitor_cb`. -/
def listVisitorCb (s : AppState) (onion name : Bytes) : AppState :=
  let online := (connectedTo s onion).isSome
  s.uiPrintSystem "  %s %s %s"
    [if online then onlineMark else offlineMark, if name ≠ [] then name else onion.take 11,
      if online then onlineText else []]

/-- `/list`. -/
def listCommand (s : AppState) : AppState :=
  if s.sh.ghostMode then s.uiPrintError "ghost mod — rehber kullanılamaz" []
  else
    let s1 := s.uiPrintSystem "── Rehber ──" []
    let r := dbListContacts E s1.sh
    let s2 := (r.1.toOption.getD []).foldl (fun t row => listVisitorCb t row.1 row.2)
      { s1 with sh := r.2 }
    s2.uiPrintSystem "── (%d bağlı) ──" [decimal (activePeerCount s2)]

/-- `/switch`. -/
def switchCommand (args : Bytes) (s : AppState) : AppState :=
  let arg := skipBlanks args
  if arg = [] then s.uiPrintError "Kullanım: /switch <isim|onion>" []
  else
    let r := findPeerByNameOrOnion E s arg
    match r.1 with
    | none => r.2.uiPrintError "Peer bulunamadı: %s" [arg]
    | some i =>
        let ps := r.2.peers i
        if ps.fd < 0 ∨ ps.session = none ∨ ps.state ≠ .active then
          r.2.uiPrintError "Peer aktif değil (handshake/TOFU devam ediyor olabilir): %s" [arg]
        else
          { r.2 with sh := { r.2.sh with
              activePeerIdx := i.val
              activePeerOnion := strCopy noxOnionLen ps.peerOnion } }.uiPrintSystem
            "Aktif peer: %s (%s)"
            [if ps.name ≠ [] then ps.name else ps.peerOnion, smStateName ps.state]

/-- `/disconnect`. -/
def disconnectCommand (s : AppState) : AppState :=
  match s.activePeer with
  | none => s.uiPrintError "Aktif peer yok" []
  | some i =>
      let ps := s.peers i
      if ps.fd < 0 ∨ ps.state = .idle then s.uiPrintError "Aktif peer yok" []
      else
        (s.onSlot i fun v => (smDispatch P E i .peerDisconnected v).2).uiPrintSystem
          "Bağlantı kesildi: %s"
          [strCopy noxContactNameLen (if ps.name ≠ [] then ps.name else ps.peerOnion)]

/-- `/status`. -/
def statusCommand (s : AppState) : AppState :=
  s.uiPrintSystem "Aktif peer: %s (%s) — %d bağlı"
    [if s.sh.activePeerOnion ≠ [] then s.sh.activePeerOnion else ascii "yok",
      smStateName ((s.activePeer.map fun i => (s.peers i).state).getD .idle),
      decimal (activePeerCount s)]

/-- The command path of `process_line`: the line starts with a slash. -/
def commandLine (line : Bytes) (s : AppState) : AppState :=
  if slashCount line ≥ 2 then
    match sendablePeer s with
    | none => s.uiPrintError "bağlantı yok — // ile slash mesajı için önce /connect" []
    | some i => sendAndReport P E i (line.drop 1) s
  else if line ∈ cmdQuit then { s with sh := { s.sh with running := false } }
  else if line = cmdHelp then s.uiPrintSystem helpText []
  else if line = cmdAddr then s.uiPrintSystem "%s" [s.sh.onionAddr]
  else if line.take 5 = cmdAdd then addCommand E (line.drop 5) s
  else if line.take 5 = cmdMsg then msgCommand P E (line.drop 5) s
  else if line.take 9 = cmdConnect then connectCommand P E (skipBlanks (line.drop 9)) s
  else if line.take 6 = cmdFile then fileCommand P E (line.drop 6) s
  else if line = cmdList then listCommand E s
  else if line.take 8 = cmdSwitch then switchCommand E (line.drop 8) s
  else if line = cmdDisconnect then disconnectCommand P E s
  else if line = cmdStatus then statusCommand s
  else if line = cmdHistory then
    s.uiPrintError "Bilinmeyen komut: /history (henüz yok) — /help" []
  else s.uiPrintError "Bilinmeyen komut: %s — /help ile listeye bak" [line]

/-- The message path of `process_line`. -/
def messageLine (line : Bytes) (s : AppState) : AppState :=
  match sendablePeer s with
  | none =>
      s.uiPrintError
        "bağlantı yok — önce /connect kullan veya çevrimdışı mesaj için /msg kullan" []
  | some i => if line = [] then s else sendAndReport P E i line s

/-- `process_line`. -/
def processLine (line : Bytes) (s : AppState) : AppState :=
  if pendingSlots s ≠ [] ∧ (isYes line ∨ isNo line) then tofuUserResponse P E (isYes line) s
  else if pendingSlots s ≠ [] ∧ slashCount line = 0 then
    s.uiPrintError
      "TOFU onayı bekleniyor — önce 'y' veya 'n' girin (veya /disconnect). Girdiniz şifreli kanala gönderilmedi."
      []
  else if pendingSlots s ≠ [] ∧ slashCount line ≥ 2 then
    s.uiPrintError
      "TOFU onayı bekleniyor — // ile mesaj gönderilemez, önce y/n veya /disconnect" []
  else if slashCount line ≥ 1 then commandLine P E line s
  else messageLine P E line s

end Line

section Listing

variable (E : Env)

/-- `db_list_contacts` takes at most one answer, which is logged if the database gives it. -/
theorem dbListContacts_eq
    (sh : Shared) :
    ∃ ticks es, (dbListContacts E sh).2 =
        { sh with tick := sh.tick + ticks, log := sh.log ++ es } ∧
      (∀ e ∈ es, ∃ rows, e = .dbListContacts rows) ∧ (sh.dbOpen = false → es = []) := by
  have hsame : sh.log ++ [] = sh.log := List.append_nil _
  unfold dbListContacts
  split
  · exact ⟨0, [], by rw [hsame]; rfl, by simp, fun _ => rfl⟩
  rename_i hopen
  cases E.dbContacts sh.tick with
  | error err =>
      exact ⟨1, [], by rw [hsame], by simp, fun _ => rfl⟩
  | ok rows =>
      exact ⟨1, [.dbListContacts rows], rfl, by simp, fun h => absurd h (by simpa using hopen)⟩

/-- The visitor of `/list` prints lines. -/
theorem listVisitorCb_foldl
    (rows : List (Bytes × Bytes)) (s : AppState) :
    ∃ lines, rows.foldl (fun t row => listVisitorCb t row.1 row.2) s =
      { s with sh := { s.sh with ui := s.sh.ui ++ lines } } := by
  induction rows generalizing s with
  | nil =>
      exact ⟨[], by rw [List.foldl_nil, List.append_nil]⟩
  | cons row rows ih =>
      obtain ⟨lines, h⟩ := ih (listVisitorCb s row.1 row.2)
      obtain ⟨line, hline⟩ : ∃ line, listVisitorCb s row.1 row.2 =
          { s with sh := { s.sh with ui := s.sh.ui ++ [line] } } := ⟨_, rfl⟩
      refine ⟨line :: lines, ?_⟩
      rw [List.foldl_cons, h, hline, List.append_assoc, List.singleton_append]

/-- `/list` prints lines around the listing. -/
theorem listCommand_eq
    (s : AppState) :
    ∃ ticks es lines, listCommand E s = { s with sh := { s.sh with
        tick := s.sh.tick + ticks, log := s.sh.log ++ es, ui := s.sh.ui ++ lines } } ∧
      (∀ e ∈ es, ∃ rows, e = .dbListContacts rows) ∧ (s.sh.dbOpen = false → es = []) := by
  unfold listCommand
  split
  · exact ⟨0, [], _, by rw [List.append_nil]; rfl, by simp, fun _ => rfl⟩
  dsimp only
  obtain ⟨ticks, es, hdb, hes, hclosed⟩ :=
    dbListContacts_eq E (s.uiPrintSystem "── Rehber ──" []).sh
  rw [hdb]
  obtain ⟨lines, hlines⟩ := listVisitorCb_foldl
    ((dbListContacts E (s.uiPrintSystem "── Rehber ──" []).sh).1.toOption.getD [])
    { s.uiPrintSystem "── Rehber ──" [] with
      sh := { (s.uiPrintSystem "── Rehber ──" []).sh with
        tick := (s.uiPrintSystem "── Rehber ──" []).sh.tick + ticks
        log := (s.uiPrintSystem "── Rehber ──" []).sh.log ++ es } }
  rw [hlines]
  generalize decimal (activePeerCount _) = count
  refine ⟨ticks, es, ⟨.system, "── Rehber ──", []⟩ ::
    (lines ++ [⟨.system, "── (%d bağlı) ──", [count]⟩]), ?_, hes, hclosed⟩
  simp only [AppState.uiPrintSystem, AppState.say, List.append_assoc]
  rfl

end Listing

end App
end Noxtor
