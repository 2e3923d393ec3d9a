import Noxtor.Lib.Table
import Noxtor.App.Types
import Noxtor.App.Frame

/-!
# The database

`database.c`: the contacts and the queue of outgoing messages.

A row has a label, the keyed hash of an onion address, and a payload that is sealed with
`crypto_secretbox` under a random nonce.  SQLite, libsodium and the allocator answer through the
records `DbCall` and `FlushCall`, one for each call of a function, so that every failure path of
the source is a path of the model.

`db_process_queue` takes a snapshot of at most 256 rows, opens them one by one and hands the
texts to a callback, which keeps a state of its own.
-/

namespace Noxtor
namespace Db

open ByteString

def noxNonceLen : Nat := 24
def secretboxMacBytes : Nat := 16
def dbMaxMsgLen : Nat := 4095
def queueBatchLimit : Nat := 256

/-- The libsodium functions of `database.c`; `secretboxOpen` is `none` where the tag is wrong. -/
structure DbPrimitives where
  generichash : Key → Bytes → Block 32
  secretbox : Key → Block 24 → Bytes → Bytes
  secretboxOpen : Key → Block 24 → Bytes → Option Bytes
  secretbox_length : ∀ k n pt, (secretbox k n pt).length = pt.length + 16
  secretboxOpen_length : ∀ k n ct pt, secretboxOpen k n ct = some pt → ct.length = pt.length + 16

/-- What the libraries answer during one call of a writing function. -/
structure DbCall where
  malloc : Bool
  nonce : Block 24
  box : Bool
  hash : Bool
  prepare : Bool
  bind : Bool
  step : Bool
deriving DecidableEq

/-- The two columns of a sealed payload; SQLite keeps any bytes there. -/
structure Record where
  nonce : Bytes
  cipher : Bytes
deriving DecidableEq

/-- A row of `contacts`. -/
structure ContactRow where
  onionHash : Bytes
  record : Record
deriving DecidableEq

/-- A row of `queue`, without its key. -/
structure QueueRow where
  recipientHash : Bytes
  record : Record
deriving DecidableEq

/-- The open database; `db_key` is set exactly while `ready` is. -/
structure DbState where
  dbKey : Option Key
  contacts : List ContactRow
  queue : Table QueueRow

section Functions

variable (P : DbPrimitives)

/-- `hash_onion`. -/
def hashOnion (hashOk : Bool) (onion : Bytes) (db : DbState) : Except NoxErr Bytes :=
  match db.dbKey with
  | none => .error .crypto
  | some key =>
      if onion.length ≠ noxOnionLen then .error .crypto
      else if !hashOk then .error .crypto
      else .ok (P.generichash key onion).toList

/-- `encrypt_payload`; the nonce comes from `randombytes_buf`. -/
def encryptPayload (call : DbCall) (key : Key) (plain : Bytes) (cipherLen : Nat) :
    Except NoxErr Record :=
  if cipherLen < plain.length + secretboxMacBytes then .error .overflow
  else if !call.box then .error .crypto
  else .ok { nonce := call.nonce.toList, cipher := P.secretbox key call.nonce plain }

/-- `decrypt_payload`. -/
def decryptPayload (key : Key) (cipher : Bytes) (nonce : Block 24) (plainLen : Nat) :
    Except NoxErr Bytes :=
  if cipher.length < secretboxMacBytes then .error .auth
  else if plainLen < cipher.length - secretboxMacBytes then .error .overflow
  else
    match P.secretboxOpen key nonce cipher with
    | none => .error .auth
    | some plain => .ok plain

/-- `db_decrypt_row`. -/
def dbDecryptRow (key : Key) (record : Record) (plainSize : Nat) : Except NoxErr Bytes :=
  if record.nonce.length ≠ noxNonceLen ∨ record.cipher.length = 0 then .error .auth
  else decryptPayload P key record.cipher (Block.ofBytes 24 record.nonce) plainSize

/-- `struct contact_payload`: two strings in fixed arrays, and the key. -/
def contactPayload (onion name : Bytes) (noiseKey : Key) : Bytes :=
  (Block.ofBytes 63 onion).toList ++ (Block.ofBytes 65 name).toList ++ noiseKey.toList

/-- `sizeof(struct contact_payload)`. -/
def contactPayloadSize : Nat := 160

/-- The name in a payload. -/
def payloadName (plain : Bytes) : Bytes :=
  App.cstr ((plain.drop 63).take 65)

/-- The key in a payload. -/
def payloadKey (plain : Bytes) : Key :=
  Block.ofBytes 32 (plain.drop 128)

/-- `INSERT OR REPLACE INTO contacts`. -/
def replaceContact (row : ContactRow) (contacts : List ContactRow) : List ContactRow :=
  contacts.filter (fun r => r.onionHash ≠ row.onionHash) ++ [row]

/-- `db_add_contact`; a failed bind leaves the result of `hash_onion`, which is `NOX_OK`. -/
def dbAddContact (call : DbCall) (onion name : Bytes) (noiseKey : Key) (db : DbState) :
    Except NoxErr Unit × DbState :=
  match db.dbKey with
  | none => (.error .state, db)
  | some key =>
      if onion.length ≠ noxOnionLen ∨ name.length > noxContactNameLen then (.error .db, db)
      else
        match encryptPayload P call key (contactPayload onion name noiseKey)
            (contactPayloadSize + secretboxMacBytes) with
        | .error err => (.error err, db)
        | .ok record =>
            match hashOnion P call.hash onion db with
            | .error err => (.error err, db)
            | .ok hash =>
                if !call.prepare then (.error .db, db)
                else if !call.bind then (.ok (), db)
                else if !call.step then (.error .db, db)
                else (.ok (), { db with contacts := replaceContact ⟨hash, record⟩ db.contacts })

/-- `db_get_contact`, with the size of the buffer for the name. -/
def dbGetContact (call : DbCall) (onion : Bytes) (nameLen : Nat) (db : DbState) :
    Except NoxErr (Bytes × Key) :=
  match db.dbKey with
  | none => .error .state
  | some key =>
      if nameLen = 0 then .error .db
      else
        match hashOnion P call.hash onion db with
        | .error err => .error err
        | .ok hash =>
            if !call.prepare || !call.bind then .error .db
            else
              match if call.step then db.contacts.find? (·.onionHash == hash) else none with
              | none => .error .db
              | some row =>
                  match dbDecryptRow P key row.record contactPayloadSize with
                  | .error err => .error err
                  | .ok plain =>
                      if plain.length ≠ contactPayloadSize then .error .db
                      else .ok ((payloadName plain).take (nameLen - 1), payloadKey plain)

/-- `db_queue_message`. -/
def dbQueueMessage (call : DbCall) (recipientOnion text : Bytes) (db : DbState) :
    Except NoxErr Unit × DbState :=
  match db.dbKey with
  | none => (.error .state, db)
  | some key =>
      if text.length > dbMaxMsgLen then (.error .db, db)
      else if !call.malloc then (.error .alloc, db)
      else
        match encryptPayload P call key (text ++ [0]) (text.length + 1 + secretboxMacBytes) with
        | .error err => (.error err, db)
        | .ok record =>
            match hashOnion P call.hash recipientOnion db with
            | .error err => (.error err, db)
            | .ok hash =>
                if !call.prepare || !call.bind || !call.step then (.error .db, db)
                else (.ok (), { db with queue := db.queue.insert ⟨hash, record⟩ })

/-- The rows of one recipient. -/
def ofRecipient (hash : Bytes) (row : QueueRow) : Bool :=
  row.recipientHash == hash

/-- `db_queue_rollback_last`. -/
def dbQueueRollbackLast (call : DbCall) (recipientOnion : Bytes) (count : Nat) (db : DbState) :
    Except NoxErr Unit × DbState :=
  if count = 0 then (.error .db, db)
  else if db.dbKey = none then (.error .state, db)
  else
    match hashOnion P call.hash recipientOnion db with
    | .error err => (.error err, db)
    | .ok hash =>
        if !call.prepare || !call.bind || !call.step then (.error .db, db)
        else (.ok (), { db with queue := db.queue.deleteNewest (ofRecipient hash) count })

/-- `db_queue_delete`. -/
def dbQueueDelete (deleted : Bool) (id : Nat) (db : DbState) : DbState :=
  if db.dbKey = none then db
  else if !deleted then db
  else { db with queue := db.queue.delete id }

/-- What the libraries answer during `db_process_queue`: `rows` is how many rows the query
delivers if it fails on the way, and the functions take the position in the batch. -/
structure FlushCall where
  hash : Bool
  prepare : Bool
  bind : Bool
  rows : Option Nat
  rowAlloc : Nat → Bool
  plainAlloc : Nat → Bool
  deleted : Nat → Bool

/-- An entry of `batch`. -/
structure BatchItem where
  id : Nat
  nonce : Block 24
  cipher : Bytes
deriving DecidableEq

/-- A row that the snapshot takes. -/
def rowFits (row : QueueRow) : Bool :=
  row.record.nonce.length = noxNonceLen ∧ secretboxMacBytes < row.record.cipher.length ∧
    row.record.cipher.length ≤ 4096 + secretboxMacBytes

/-- The loop that takes the snapshot; `none` is a failed allocation. -/
def fillBatch (rowAlloc : Nat → Bool) :
    List (Nat × QueueRow) → List BatchItem → Option (List BatchItem)
  | [], batch => some batch
  | (id, row) :: rows, batch =>
      if queueBatchLimit ≤ batch.length then some batch
      else if !rowFits row then fillBatch rowAlloc rows batch
      else if !rowAlloc batch.length then none
      else fillBatch rowAlloc rows
        (batch ++ [⟨id, Block.ofBytes 24 row.record.nonce, row.record.cipher⟩])

section Callback

variable {σ : Type} (send : Bytes → σ → Except NoxErr Unit × σ)

/-- The loop over the snapshot, from its position `n` on. -/
def sendBatch (call : FlushCall) (key : Key) :
    List BatchItem → Nat → DbState → σ → Except NoxErr Unit × DbState × σ
  | [], _, db, ctx => (.ok (), db, ctx)
  | item :: items, n, db, ctx =>
      if !call.plainAlloc n then (.error .alloc, db, ctx)
      else
        match decryptPayload P key item.cipher item.nonce
            (item.cipher.length - secretboxMacBytes) with
        | .error _ =>
            sendBatch call key items (n + 1) (dbQueueDelete (call.deleted n) item.id db) ctx
        | .ok plain =>
            if plain.getLast? ≠ some 0 then
              sendBatch call key items (n + 1) (dbQueueDelete (call.deleted n) item.id db) ctx
            else
              match send (App.cstr plain) ctx with
              | (.ok (), ctx1) =>
                  sendBatch call key items (n + 1) (dbQueueDelete (call.deleted n) item.id db) ctx1
              | (.error err, ctx1) => (.error err, db, ctx1)

/-- `db_process_queue`. -/
def dbProcessQueue (call : FlushCall) (recipientOnion : Bytes) (db : DbState) (ctx : σ) :
    Except NoxErr Unit × DbState × σ :=
  match db.dbKey with
  | none => (.error .state, db, ctx)
  | some key =>
      match hashOnion P call.hash recipientOnion db with
      | .error err => (.error err, db, ctx)
      | .ok hash =>
          if !call.prepare || !call.bind then (.error .db, db, ctx)
          else
            let selected := db.queue.select (ofRecipient hash)
            match fillBatch call.rowAlloc (selected.take (call.rows.getD selected.length)) [] with
            | none => (.error .alloc, db, ctx)
            | some batch => sendBatch P send call key batch 0 db ctx

end Callback

/-- `db_close`. -/
def dbClose (db : DbState) : DbState :=
  { db with dbKey := none }

/-- The loop of `queue_segmented_message`, with the answers for each insertion and for the
rollback.  A line has at most 64 KiB, so the counter of the source does not overflow. -/
def queueLoop (calls : Nat → DbCall) (rollback : DbCall) (recipientOnion msg : Bytes) :
    Nat → Nat → Nat → DbState → Except NoxErr Unit × DbState
  | 0, _, _, db => (.ok (), db)
  | fuel + 1, offset, queued, db =>
      if offset < msg.length then
        let chunkLen := App.noxNextChunkSize msg offset msg.length
        match dbQueueMessage P (calls queued) recipientOnion ((msg.drop offset).take chunkLen) db with
        | (.error err, db1) =>
            (.error err, if queued > 0 then
              (dbQueueRollbackLast P rollback recipientOnion queued db1).2 else db1)
        | (.ok (), db1) =>
            queueLoop calls rollback recipientOnion msg fuel (offset + chunkLen) (queued + 1) db1
      else (.ok (), db)

/-- `queue_segmented_message`. -/
def queueSegmentedMessage (malloc : Bool) (calls : Nat → DbCall) (rollback : DbCall)
    (recipientOnion msg : Bytes) (db : DbState) : Except NoxErr Unit × DbState :=
  if !malloc then (.error .alloc, db)
  else queueLoop P calls rollback recipientOnion msg msg.length 0 0 db

end Functions

section Calls

variable (P : DbPrimitives)

/-- The row that `db_queue_message` writes into an open database. -/
def queueRow (call : DbCall) (key : Key) (recipientOnion text : Bytes) : QueueRow where
  recipientHash := (P.generichash key recipientOnion).toList
  record := { nonce := call.nonce.toList, cipher := P.secretbox key call.nonce (text ++ [0]) }

variable {P}

theorem hashOnion_ok
    {hashOk : Bool} {onion hash : Bytes} {db : DbState} (h : hashOnion P hashOk onion db = .ok hash) :
    ∃ key, db.dbKey = some key ∧ onion.length = noxOnionLen ∧
      hash = (P.generichash key onion).toList := by
  unfold hashOnion at h
  split at h
  · cases h
  · rename_i key hkey
    split at h
    · cases h
    · rename_i hlen
      split at h
      · cases h
      · cases h
        exact ⟨key, hkey, not_not.mp hlen, rfl⟩

theorem hashOnion_of_open
    {key : Key} {onion : Bytes} {db : DbState} (hkey : db.dbKey = some key)
    (hlen : onion.length = noxOnionLen) :
    hashOnion P true onion db = .ok (P.generichash key onion).toList := by
  simp [hashOnion, hkey, hlen]

/-- `db_queue_message` writes one row or fails and changes nothing. -/
theorem dbQueueMessage_cases
    (call : DbCall) (onion text : Bytes) (db : DbState) :
    (∃ err, dbQueueMessage P call onion text db = (.error err, db)) ∨
    (∃ key, db.dbKey = some key ∧ onion.length = noxOnionLen ∧ text.length ≤ dbMaxMsgLen ∧
      dbQueueMessage P call onion text db =
        (.ok (), { db with queue := db.queue.insert (queueRow P call key onion text) })) := by
  unfold dbQueueMessage
  split
  · exact Or.inl ⟨_, rfl⟩
  · rename_i key hkey
    split
    · exact Or.inl ⟨_, rfl⟩
    · rename_i htext
      split
      · exact Or.inl ⟨_, rfl⟩
      · split
        · exact Or.inl ⟨_, rfl⟩
        · rename_i record hrecord
          split
          · exact Or.inl ⟨_, rfl⟩
          · rename_i hash hhash
            split
            · exact Or.inl ⟨_, rfl⟩
            · obtain ⟨key', hkey', hlen, rfl⟩ := hashOnion_ok hhash
              cases hkey.symm.trans hkey'
              refine Or.inr ⟨key, hkey, hlen, by omega, ?_⟩
              unfold encryptPayload at hrecord
              split at hrecord
              · cases hrecord
              · split at hrecord
                · cases hrecord
                · cases hrecord
                  rfl

end Calls

/-- The tag of `sampleDbPrimitives`: the first bytes of the nonce and of the key. -/
def sampleDbTag (k : Key) (n : Block 24) : Bytes :=
  n.toList.take 12 ++ k.toList.take 4

@[simp] theorem sampleDbTag_length
    (k : Key) (n : Block 24) :
    (sampleDbTag k n).length = 16 := by
  simp [sampleDbTag]

/-- A hash that keeps the first bytes; opening undoes sealing and refuses another tag. -/
def sampleDbPrimitives : DbPrimitives where
  generichash _ data := Block.ofBytes 32 data
  secretbox k n pt := pt ++ sampleDbTag k n
  secretboxOpen k n ct :=
    if 16 ≤ ct.length ∧ ct.drop (ct.length - 16) = sampleDbTag k n then
      some (ct.take (ct.length - 16))
    else none
  secretbox_length k n pt := by
    simp
  secretboxOpen_length k n ct pt h := by
    split at h
    · rename_i hct
      rw [Option.some.injEq] at h
      rw [← h, List.length_take]
      omega
    · cases h

/-- A call in which everything succeeds, with a nonce of bytes `b`. -/
def sampleDbCall (b : UInt8) : DbCall :=
  { malloc := true, nonce := Block.ofBytes 24 (List.replicate 24 b), box := true, hash := true
    prepare := true, bind := true, step := true }

/-- An open database without rows. -/
def sampleDb : DbState :=
  { dbKey := some (samplePair 8).priv, contacts := [], queue := .empty }

/-- An address that begins with `c`; the database does not look at it. -/
def samplePeer (c : UInt8) : Bytes :=
  c :: List.replicate 61 0x61

end Db
end Noxtor
