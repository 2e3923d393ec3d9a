import Noxtor.Db.AddContact
import Noxtor.Lib.Newest

/-!
# The message history

`database.c`: the table `messages`, and the list of the contacts with their last messages.

A row has the label of its peer, the sealed text, the time and the direction.  The readers go
through the rows of a query: `db_get_history` shows the newest messages of one peer in the order of
their times, `db_list_contacts_with_summary` the last message of every contact.  A row that does
not open is passed over.
-/

namespace Noxtor
namespace Db

open ByteString

/-- A row of `messages`, without its key. -/
structure MessageRow where
  peerHash : Bytes
  record : Record
  timestamp : Int
  isOutgoing : Bool
deriving DecidableEq

/-- The open database with its messages. -/
structure HistoryDb extends DbState where
  messages : Table MessageRow

/-- What a visitor of the history is called with. -/
structure Message where
  text : Bytes
  isOutgoing : Bool
  timestamp : Int
deriving DecidableEq

/-- What a visitor of the contacts is called with. -/
structure Contact where
  onion : Bytes
  name : Bytes
  noiseKey : Key
deriving DecidableEq

/-- What a visitor of the summaries is called with; the text is `none` for `NULL`. -/
structure Summary where
  contact : Contact
  lastText : Option Bytes
  lastOutgoing : Bool
  lastTimestamp : Int
deriving DecidableEq

/-- What the libraries answer during `db_get_history`: `rows` is how many rows the query delivers if
it fails on the way, and `plainAlloc` takes the position of the row. -/
structure HistoryCall where
  hash : Bool
  prepare : Bool
  bind : Bool
  rows : Option Nat
  plainAlloc : Nat → Bool

/-- The same for the lists of contacts; the functions take the position of the contact. -/
structure ListCall where
  prepare : Bool
  prepareMsg : Bool
  rows : Option Nat
  bind : Nat → Bool
  step : Nat → Bool
  plainAlloc : Nat → Bool

section Functions

variable (P : DbPrimitives)

/-- `db_save_message`. -/
def dbSaveMessage (call : DbCall) (peerOnion text : Bytes) (isOutgoing : Bool) (timestamp : Int)
    (db : HistoryDb) : Except NoxErr Unit × HistoryDb :=
  match db.dbKey with
  | none => (.error .state, db)
  | some key =>
      if text.length > dbMaxMsgLen then (.error .db, db)
      else if !call.malloc then (.error .alloc, db)
      else
        match encryptPayload P call key (text ++ [0]) (text.length + 1 + secretboxMacBytes) with
        | .error err => (.error err, db)
        | .ok record =>
            match hashOnion P call.hash peerOnion db.toDbState with
            | .error err => (.error err, db)
            | .ok hash =>
                if !call.prepare || !call.bind || !call.step then (.error .db, db)
                else (.ok (), { db with
                  messages := db.messages.insert ⟨hash, record, timestamp, isOutgoing⟩ })

/-- The messages with one peer. -/
def ofPeer (hash : Bytes) (row : MessageRow) : Bool :=
  row.peerHash == hash

/-- `db_delete_conversation`. -/
def dbDeleteConversation (call : DbCall) (peerOnion : Bytes) (db : HistoryDb) :
    Except NoxErr Unit × HistoryDb :=
  if db.dbKey = none then (.error .state, db)
  else
    match hashOnion P call.hash peerOnion db.toDbState with
    | .error err => (.error err, db)
    | .ok hash =>
        if !call.prepare || !call.bind || !call.step then (.error .db, db)
        else (.ok (), { db with messages := db.messages.deleteRows (ofPeer hash) })

/-- `ORDER BY timestamp, id`, the newest `limit` of the rows of a peer. -/
def newestRows (hash : Bytes) (limit : Nat) (db : HistoryDb) : List MessageRow :=
  (Newest.newest (Newest.byKey MessageRow.timestamp) limit
    (db.messages.select (ofPeer hash))).map Prod.snd

section Visitor

variable {σ : Type}

/-- The loop over the rows, from position `n` on. -/
def historyLoop (visitor : Message → σ → σ) (call : HistoryCall) (key : Key) :
    List MessageRow → Nat → σ → Except NoxErr Unit × σ
  | [], _, ctx => (.ok (), ctx)
  | row :: rows, n, ctx =>
      if row.record.cipher.length ≤ secretboxMacBytes then
        historyLoop visitor call key rows (n + 1) ctx
      else if !call.plainAlloc n then (.error .alloc, ctx)
      else
        match dbDecryptRow P key row.record (row.record.cipher.length - secretboxMacBytes) with
        | .error _ => historyLoop visitor call key rows (n + 1) ctx
        | .ok plain =>
            historyLoop visitor call key rows (n + 1)
              (visitor ⟨App.cstr plain, row.isOutgoing, row.timestamp⟩ ctx)

/-- The limit of the query. -/
def historyLimit (limit : Int) : Nat :=
  if limit ≤ 0 then 1000 else limit.toNat

/-- `db_get_history`. -/
def dbGetHistory (visitor : Message → σ → σ) (call : HistoryCall) (peerOnion : Bytes) (limit : Int)
    (db : HistoryDb) (ctx : σ) : Except NoxErr Unit × σ :=
  match db.dbKey with
  | none => (.error .state, ctx)
  | some key =>
      match hashOnion P call.hash peerOnion db.toDbState with
      | .error err => (.error err, ctx)
      | .ok hash =>
          if !call.prepare || !call.bind then (.error .db, ctx)
          else
            let selected := newestRows hash (historyLimit limit) db
            historyLoop P visitor call key (selected.take (call.rows.getD selected.length)) 0 ctx

/-- `struct contact_payload` behind the decryption; a short payload leaves zeros. -/
def payloadContact (plain : Bytes) : Contact :=
  let cp := (Block.ofBytes contactPayloadSize plain).toList
  { onion := App.cstr cp, name := payloadName cp, noiseKey := payloadKey cp }

/-- `db_list_contacts`. -/
def dbListContacts (visitor : Contact → σ → σ) (call : ListCall) (db : HistoryDb) (ctx : σ) :
    Except NoxErr Unit × σ :=
  match db.dbKey with
  | none => (.error .state, ctx)
  | some key =>
      if !call.prepare then (.error .db, ctx)
      else
        (.ok (), (db.contacts.take (call.rows.getD db.contacts.length)).foldl
          (fun ctx row =>
            match dbDecryptRow P key row.record contactPayloadSize with
            | .error _ => ctx
            | .ok plain => visitor (payloadContact plain) ctx) ctx)

/-- The text of the last message, as far as it can be opened. -/
def lastText (alloc : Bool) (key : Key) (record : Record) : Option Bytes :=
  if record.nonce.length = noxNonceLen ∧ secretboxMacBytes < record.cipher.length then
    if !alloc then none
    else
      match decryptPayload P key record.cipher (Block.ofBytes 24 record.nonce)
          (record.cipher.length - secretboxMacBytes) with
      | .error _ => none
      | .ok plain => some (App.cstr plain)
  else none

/-- The summary of a contact, from the row of its last message. -/
def summaryOf (alloc : Bool) (key : Key) (contact : Contact) : Option MessageRow → Summary
  | none => ⟨contact, none, false, 0⟩
  | some row => ⟨contact, lastText P alloc key row.record, row.isOutgoing, row.timestamp⟩

/-- The loop over the contacts, from position `n` on; `LIMIT 1` takes the newest message. -/
def summaryLoop (visitor : Summary → σ → σ) (call : ListCall) (key : Key) (db : HistoryDb) :
    List ContactRow → Nat → σ → σ
  | [], _, ctx => ctx
  | row :: rows, n, ctx =>
      if row.record.nonce.length ≠ noxNonceLen ∨ row.record.cipher.length = 0 then
        summaryLoop visitor call key db rows (n + 1) ctx
      else
        match decryptPayload P key row.record.cipher (Block.ofBytes 24 row.record.nonce)
            contactPayloadSize with
        | .error _ => summaryLoop visitor call key db rows (n + 1) ctx
        | .ok plain =>
            if !call.bind n then summaryLoop visitor call key db rows (n + 1) ctx
            else
              let last := if call.step n then (newestRows row.onionHash 1 db).head? else none
              summaryLoop visitor call key db rows (n + 1)
                (visitor (summaryOf P (call.plainAlloc n) key (payloadContact plain) last) ctx)

/-- `db_list_contacts_with_summary`. -/
def dbListContactsWithSummary (visitor : Summary → σ → σ) (call : ListCall) (db : HistoryDb)
    (ctx : σ) : Except NoxErr Unit × σ :=
  match db.dbKey with
  | none => (.error .state, ctx)
  | some key =>
      if !call.prepare || !call.prepareMsg then (.error .db, ctx)
      else
        (.ok (), summaryLoop P visitor call key db
          (db.contacts.take (call.rows.getD db.contacts.length)) 0 ctx)

end Visitor

end Functions

section Calls

variable (P : DbPrimitives)

/-- The row that `db_save_message` writes into an open database. -/
def messageRow (call : DbCall) (key : Key) (peer : Bytes) (m : Message) : MessageRow where
  peerHash := (P.generichash key peer).toList
  record := { nonce := call.nonce.toList, cipher := P.secretbox key call.nonce (m.text ++ [0]) }
  timestamp := m.timestamp
  isOutgoing := m.isOutgoing

/-- The query for one peer. -/
def ofPeerLabel (key : Key) (peer : Bytes) : MessageRow → Bool :=
  ofPeer (P.generichash key peer).toList

variable {P}

/-- `db_save_message` writes one row or fails and changes nothing. -/
theorem dbSaveMessage_cases
    (call : DbCall) (peer : Bytes) (m : Message) (db : HistoryDb) :
    (∃ err, dbSaveMessage P call peer m.text m.isOutgoing m.timestamp db = (.error err, db)) ∨
    (∃ key, db.dbKey = some key ∧ m.text.length ≤ dbMaxMsgLen ∧ call.bind = true ∧
      dbSaveMessage P call peer m.text m.isOutgoing m.timestamp db =
        (.ok (), { db with messages := db.messages.insert (messageRow P call key peer m) })) := by
  unfold dbSaveMessage
  split
  · exact Or.inl ⟨_, rfl⟩
  rename_i key hkey
  split
  · exact Or.inl ⟨_, rfl⟩
  rename_i htext
  split
  · exact Or.inl ⟨_, rfl⟩
  split
  · exact Or.inl ⟨_, rfl⟩
  rename_i record hrecord
  split
  · exact Or.inl ⟨_, rfl⟩
  rename_i hash hhash
  obtain ⟨key', hkey', -, rfl⟩ := hashOnion_ok hhash
  cases hkey.symm.trans hkey'
  split
  · exact Or.inl ⟨_, rfl⟩
  · rename_i hsteps
    have hbind : call.bind = true := by
      cases hb : call.bind
      · simp [hb] at hsteps
      · rfl
    refine Or.inr ⟨key, hkey, by omega, hbind, ?_⟩
    unfold encryptPayload at hrecord
    split at hrecord
    · cases hrecord
    split at hrecord
    · cases hrecord
    · cases hrecord
      rfl

/-- `db_delete_conversation` deletes the rows of the peer or fails and changes nothing. -/
theorem dbDeleteConversation_cases
    (call : DbCall) (peer : Bytes) (db : HistoryDb) :
    (∃ err, dbDeleteConversation P call peer db = (.error err, db)) ∨
    (∃ key, db.dbKey = some key ∧ call.bind = true ∧
      dbDeleteConversation P call peer db =
        (.ok (), { db with messages := db.messages.deleteRows (ofPeerLabel P key peer) })) := by
  unfold dbDeleteConversation
  split
  · exact Or.inl ⟨_, rfl⟩
  split
  · exact Or.inl ⟨_, rfl⟩
  rename_i hash hhash
  obtain ⟨key, hkey, -, rfl⟩ := hashOnion_ok hhash
  split
  · exact Or.inl ⟨_, rfl⟩
  · rename_i hsteps
    have hbind : call.bind = true := by
      cases hb : call.bind
      · simp [hb] at hsteps
      · rfl
    exact Or.inr ⟨key, hkey, hbind, rfl⟩

/-- The row holds the message, as `db_save_message` has written it. -/
def Stored (P : DbPrimitives) (key : Key) (peer : Bytes) (row : Nat × MessageRow) (m : Message) :
    Prop :=
  0 ∉ m.text ∧ ∃ call, row.2 = messageRow P call key peer m

/-- The row holds the contact, as `db_add_contact` has written it. -/
def Listed (P : DbPrimitives) (key : Key) (row : ContactRow) (c : Contact) : Prop :=
  (0 ∉ c.onion ∧ c.onion.length = noxOnionLen) ∧ (0 ∉ c.name ∧ c.name.length ≤ noxContactNameLen) ∧
    ∃ call, row = contactRow P call c.onion c.name c.noiseKey key

theorem messageRow_cipher
    (call : DbCall) (key : Key) (peer : Bytes) (m : Message) :
    (messageRow P call key peer m).record.cipher.length =
      m.text.length + 1 + secretboxMacBytes := by
  rw [messageRow, P.secretbox_length, List.length_append, List.length_singleton]
  rfl

theorem decryptPayload_messageRow
    (hopen : P.Opens) (call : DbCall) (key : Key) (peer : Bytes) (m : Message) :
    decryptPayload P key (messageRow P call key peer m).record.cipher
      (Block.ofBytes 24 (messageRow P call key peer m).record.nonce)
      ((messageRow P call key peer m).record.cipher.length - secretboxMacBytes) =
      .ok (m.text ++ [0]) := by
  unfold decryptPayload
  rw [if_neg (by rw [messageRow_cipher]; omega), if_neg (Nat.lt_irrefl _)]
  simp only [messageRow, Block.ofBytes_toList, hopen key call.nonce]

theorem dbDecryptRow_messageRow
    (hopen : P.Opens) (call : DbCall) (key : Key) (peer : Bytes) (m : Message) :
    dbDecryptRow P key (messageRow P call key peer m).record
      ((messageRow P call key peer m).record.cipher.length - secretboxMacBytes) =
      .ok (m.text ++ [0]) := by
  have hnonce : (messageRow P call key peer m).record.nonce.length = noxNonceLen :=
    List.Vector.toList_length _
  unfold dbDecryptRow
  rw [decryptPayload_messageRow hopen, hnonce, messageRow_cipher, if_neg (by omega)]

theorem payloadContact_listed
    {c : Contact} (honion : 0 ∉ c.onion ∧ c.onion.length = noxOnionLen)
    (hname : 0 ∉ c.name ∧ c.name.length ≤ noxContactNameLen) :
    payloadContact (contactPayload c.onion c.name c.noiseKey) = c := by
  have hlen := contactPayload_length c.onion c.name c.noiseKey
  have hpad : (Block.ofBytes contactPayloadSize (contactPayload c.onion c.name c.noiseKey)).toList =
      contactPayload c.onion c.name c.noiseKey := by
    rw [Block.toList_ofBytes_of_le hlen.ge, ← hlen, List.take_length]
  unfold payloadContact
  rw [hpad]
  dsimp only
  rw [contactPayload_name c.onion hname.1 hname.2, contactPayload_key,
    contactPayload_cstr honion.1 honion.2]

end Calls

/-- An address book and a conversation with each address. -/
structure Chats where
  book : List Contact
  talk : Bytes → List Message

namespace Chats

/-- A contact is added at the end, in place of an older one with its address. -/
def add (c : Contact) (chats : Chats) : Chats :=
  { chats with book := chats.book.filter (fun c' => c'.onion ≠ c.onion) ++ [c] }

/-- A message is added to a conversation. -/
def save (peer : Bytes) (m : Message) (chats : Chats) : Chats :=
  { chats with talk := Function.update chats.talk peer (chats.talk peer ++ [m]) }

/-- A conversation is forgotten. -/
def forget (peer : Bytes) (chats : Chats) : Chats :=
  { chats with talk := Function.update chats.talk peer [] }

end Chats

/-- A conversation in the order of its times; equal times keep their order. -/
def inOrder (talk : List Message) : List Message :=
  talk.insertionSort fun a b => a.timestamp ≤ b.timestamp

/-- The newest `limit` messages. -/
def recent (limit : Nat) (talk : List Message) : List Message :=
  (inOrder talk).drop (talk.length - limit)

/-- A contact with the last message of its conversation. -/
def Chats.summary (chats : Chats) (c : Contact) : Summary :=
  match (inOrder (chats.talk c.onion)).getLast? with
  | none => ⟨c, none, false, 0⟩
  | some m => ⟨c, some m.text, m.isOutgoing, m.timestamp⟩

/-- A call of one of the writers. -/
inductive HistoryOp where
  | add (call : DbCall) (onion name : CString) (noiseKey : Key)
  | save (call : DbCall) (peer text : CString) (isOutgoing : Bool) (timestamp : Int)
  | forget (call : DbCall) (peer : CString)

namespace HistoryOp

/-- The address that the call is about. -/
def peer : HistoryOp → Bytes
  | add _ onion _ _ => onion.1
  | save _ peer _ _ _ => peer.1
  | forget _ peer => peer.1

def call : HistoryOp → DbCall
  | add c _ _ _ => c
  | save c _ _ _ _ => c
  | forget c _ => c

/-- The call itself. -/
def apply (P : DbPrimitives) (db : HistoryDb) : HistoryOp → Except NoxErr Unit × HistoryDb
  | add call onion name noiseKey =>
      let r := dbAddContact P call onion.1 name.1 noiseKey db.toDbState
      (r.1, { db with toDbState := r.2 })
  | save call peer text isOutgoing timestamp =>
      dbSaveMessage P call peer.1 text.1 isOutgoing timestamp db
  | forget call peer => dbDeleteConversation P call peer.1 db

/-- What the call is meant to do. -/
def effect (chats : Chats) : HistoryOp → Chats
  | add _ onion name noiseKey => chats.add ⟨onion.1, name.1, noiseKey⟩
  | save _ peer text isOutgoing timestamp => chats.save peer.1 ⟨text.1, isOutgoing, timestamp⟩
  | forget _ peer => chats.forget peer.1

/-- The call returns `NOX_OK`, and its parameters have been bound: `db_add_contact` does not report
a failed bind. -/
def Done (P : DbPrimitives) (db : HistoryDb) (op : HistoryOp) : Prop :=
  (op.apply P db).1 = .ok () ∧ op.call.bind = true

instance (P : DbPrimitives) (db : HistoryDb) (op : HistoryOp) : Decidable (op.Done P db) :=
  inferInstanceAs (Decidable (_ ∧ _))

end HistoryOp

/-- The database, and what it should hold. -/
structure HistoryWorld where
  db : HistoryDb
  chats : Chats

/-- One call; the chats follow if it is done. -/
def historyStep (P : DbPrimitives) (w : HistoryWorld) (op : HistoryOp) : HistoryWorld where
  db := (op.apply P w.db).2
  chats := if op.Done P w.db then op.effect w.chats else w.chats

def historyRun (P : DbPrimitives) (w : HistoryWorld) (ops : List HistoryOp) : HistoryWorld :=
  ops.foldl (historyStep P) w

/-- A database that has just been created. -/
def historyStart (key : Key) : HistoryWorld where
  db := { dbKey := some key, contacts := [], queue := .empty, messages := .empty }
  chats := { book := [], talk := fun _ => [] }

/-- The tables hold the book and the conversations. -/
structure HistoryInv (P : DbPrimitives) (key : Key) (onions : List Bytes) (w : HistoryWorld) :
    Prop where
  opened : w.db.dbKey = some key
  known : ∀ c ∈ w.chats.book, c.onion ∈ onions
  once : (w.chats.book.map Contact.onion).Nodup
  book : List.Forall₂ (Listed P key) w.db.contacts w.chats.book
  talk : ∀ peer ∈ onions, List.Forall₂ (Stored P key peer)
    (w.db.messages.select (ofPeerLabel P key peer)) (w.chats.talk peer)

section Invariant

variable {P : DbPrimitives} {key : Key} {onions : List Bytes} {w : HistoryWorld}

theorem ofPeerLabel_row
    (call : DbCall) (key : Key) (peer : Bytes) (m : Message) :
    ofPeerLabel P key peer (messageRow P call key peer m) = true :=
  beq_self_eq_true _

/-- The rows of one peer do not have the label of another. -/
theorem ofPeerLabel_ne
    (hcoll : NoCollision P key onions) {peer other : Bytes} (hpeer : peer ∈ onions)
    (hother : other ∈ onions) (h : other ≠ peer) (row : MessageRow)
    (hrow : ofPeerLabel P key other row = true) :
    ofPeerLabel P key peer row = false := by
  simp only [ofPeerLabel, ofPeer, beq_iff_eq] at hrow
  simp only [ofPeerLabel, ofPeer, hrow, beq_eq_false_iff_ne]
  intro hlabel
  exact h (hcoll other hother peer hpeer (List.Vector.toList_injective hlabel))

/-- A message is saved. -/
theorem HistoryInv.save
    (hinv : HistoryInv P key onions w) (hcoll : NoCollision P key onions) (call : DbCall)
    {peer : CString} (hpeer : peer.1 ∈ onions) (text : CString) (isOutgoing : Bool)
    (timestamp : Int) :
    HistoryInv P key onions (historyStep P w (.save call peer text isOutgoing timestamp)) := by
  have happly : (HistoryOp.save call peer text isOutgoing timestamp).apply P w.db =
      dbSaveMessage P call peer.1 text.1 isOutgoing timestamp w.db := rfl
  rcases dbSaveMessage_cases (P := P) call peer.1 ⟨text.1, isOutgoing, timestamp⟩ w.db with
    ⟨err, hres⟩ | ⟨key', hkey', -, hbind, hres⟩
  · have hnot : ¬ (HistoryOp.save call peer text isOutgoing timestamp).Done P w.db := by
      intro hdone
      rw [HistoryOp.Done, happly, hres] at hdone
      cases hdone.1
    simp only [historyStep, if_neg hnot, happly, hres]
    exact hinv
  · cases hinv.opened.symm.trans hkey'
    have hdone : (HistoryOp.save call peer text isOutgoing timestamp).Done P w.db := by
      rw [HistoryOp.Done, happly, hres]
      exact ⟨rfl, hbind⟩
    simp only [historyStep, if_pos hdone, happly, hres]
    refine ⟨hinv.opened, hinv.known, hinv.once, hinv.book, fun other hother => ?_⟩
    have hold := hinv.talk other hother
    by_cases hsame : other = peer.1
    · subst hsame
      simp only [HistoryOp.effect, Chats.save, Function.update_self]
      rw [Table.select_insert_of_true _ (ofPeerLabel_row call key peer.1 _)]
      exact List.rel_append hold (.cons ⟨text.2, call, rfl⟩ .nil)
    · simp only [HistoryOp.effect, Chats.save, Function.update_of_ne hsame]
      rw [Table.select_insert_of_false]
      · exact hold
      · exact ofPeerLabel_ne hcoll hother hpeer (fun h => hsame h.symm) _
          (ofPeerLabel_row call key peer.1 _)

/-- A conversation is deleted. -/
theorem HistoryInv.forget
    (hinv : HistoryInv P key onions w) (hcoll : NoCollision P key onions) (call : DbCall)
    {peer : CString} (hpeer : peer.1 ∈ onions) :
    HistoryInv P key onions (historyStep P w (.forget call peer)) := by
  have happly : (HistoryOp.forget call peer).apply P w.db =
      dbDeleteConversation P call peer.1 w.db := rfl
  rcases dbDeleteConversation_cases (P := P) call peer.1 w.db with
    ⟨err, hres⟩ | ⟨key', hkey', hbind, hres⟩
  · have hnot : ¬ (HistoryOp.forget call peer).Done P w.db := by
      intro hdone
      rw [HistoryOp.Done, happly, hres] at hdone
      cases hdone.1
    simp only [historyStep, if_neg hnot, happly, hres]
    exact hinv
  · cases hinv.opened.symm.trans hkey'
    have hdone : (HistoryOp.forget call peer).Done P w.db := by
      rw [HistoryOp.Done, happly, hres]
      exact ⟨rfl, hbind⟩
    simp only [historyStep, if_pos hdone, happly, hres]
    refine ⟨hinv.opened, hinv.known, hinv.once, hinv.book, fun other hother => ?_⟩
    have hold := hinv.talk other hother
    by_cases hsame : other = peer.1
    · subst hsame
      simp only [HistoryOp.effect, Chats.forget, Function.update_self]
      rw [Table.select_deleteRows_self]
      exact .nil
    · simp only [HistoryOp.effect, Chats.forget, Function.update_of_ne hsame]
      rw [Table.select_deleteRows_of_disjoint _ fun row hrow =>
        ofPeerLabel_ne hcoll hpeer hother hsame row hrow]
      exact hold

/-- A contact replaces the one with its address, in the table as in the book. -/
theorem forall₂_replaceContact
    (hcoll : NoCollision P key onions) {rows : List ContactRow} {book : List Contact}
    (h : List.Forall₂ (Listed P key) rows book) (hknown : ∀ c ∈ book, c.onion ∈ onions)
    {row : ContactRow} {c : Contact} (hrow : Listed P key row c) (hc : c.onion ∈ onions) :
    List.Forall₂ (Listed P key) (replaceContact row rows)
      (book.filter (fun c' => c'.onion ≠ c.onion) ++ [c]) := by
  refine List.rel_append ?_ (.cons hrow .nil)
  obtain ⟨-, -, call, rfl⟩ := hrow
  induction h with
  | nil =>
      exact .nil
  | @cons row' c' rows book hrow' _ ih =>
      have hlabel : row'.onionHash ≠ (contactRow P call c.onion c.name c.noiseKey key).onionHash ↔
          c'.onion ≠ c.onion := by
        obtain ⟨-, -, call', rfl⟩ := hrow'
        refine not_congr ⟨fun heq => ?_, fun heq => ?_⟩
        · exact hcoll _ (hknown c' List.mem_cons_self) _ hc (List.Vector.toList_injective heq)
        · simp only [contactRow, heq]
      have htail := ih fun x hx => hknown x (List.mem_cons_of_mem c' hx)
      by_cases hne : c'.onion ≠ c.onion
      · rw [List.filter_cons_of_pos (by simpa using hlabel.mpr hne),
          List.filter_cons_of_pos (by simpa using hne)]
        exact .cons hrow' htail
      · rw [List.filter_cons_of_neg (by simpa using (not_congr hlabel).mpr hne),
          List.filter_cons_of_neg (by simpa using hne)]
        exact htail

/-- No address is in the book twice. -/
theorem book_once
    {book : List Contact} (h : (book.map Contact.onion).Nodup) (c : Contact) :
    ((book.filter (fun c' => c'.onion ≠ c.onion) ++ [c]).map Contact.onion).Nodup := by
  rw [List.map_append, List.nodup_append]
  refine ⟨h.sublist (List.filter_sublist.map _), List.nodup_singleton _, ?_⟩
  intro a ha b hb
  obtain ⟨c', hc', rfl⟩ := List.mem_map.mp ha
  obtain rfl := List.mem_singleton.mp hb
  simpa using (List.mem_filter.mp hc').2

/-- A contact is added. -/
theorem HistoryInv.add
    (hinv : HistoryInv P key onions w) (hcoll : NoCollision P key onions) (call : DbCall)
    {onion : CString} (honion : onion.1 ∈ onions) (name : CString) (noiseKey : Key) :
    HistoryInv P key onions (historyStep P w (.add call onion name noiseKey)) := by
  have happly : (HistoryOp.add call onion name noiseKey).apply P w.db =
      ((dbAddContact P call onion.1 name.1 noiseKey w.db.toDbState).1, { w.db with
        toDbState := (dbAddContact P call onion.1 name.1 noiseKey w.db.toDbState).2 }) := rfl
  by_cases hwritten : Written call onion.1 name.1 w.db.toDbState
  · have hres := dbAddContact_written P noiseKey hwritten hinv.opened
    have hdone : (HistoryOp.add call onion name noiseKey).Done P w.db := by
      rw [HistoryOp.Done, happly, hres]
      exact ⟨rfl, hwritten.2.1⟩
    simp only [historyStep, if_pos hdone, happly, hres]
    have hrow : Listed P key (contactRow P call onion.1 name.1 noiseKey key)
        ⟨onion.1, name.1, noiseKey⟩ :=
      ⟨⟨onion.2, hwritten.1.2.1⟩, ⟨name.2, hwritten.1.2.2.1⟩, call, rfl⟩
    refine ⟨hinv.opened, fun c hc => ?_, book_once hinv.once ⟨onion.1, name.1, noiseKey⟩,
      forall₂_replaceContact hcoll hinv.book hinv.known hrow honion, hinv.talk⟩
    rcases List.mem_append.mp hc with hc | hc
    · exact hinv.known c (List.mem_of_mem_filter hc)
    · rw [List.mem_singleton.mp hc]
      exact honion
  · obtain ⟨hsame, hok⟩ := dbAddContact_not_written P noiseKey hwritten
    have hnot : ¬ (HistoryOp.add call onion name noiseKey).Done P w.db := by
      intro hdone
      rw [HistoryOp.Done, happly] at hdone
      have hbad := (hok.mp hdone.1).2
      rw [show call.bind = true from hdone.2] at hbad
      cases hbad
    simp only [historyStep, if_neg hnot, happly, hsame]
    exact hinv

theorem historyStep_inv
    (hinv : HistoryInv P key onions w) (hcoll : NoCollision P key onions) (op : HistoryOp)
    (hop : op.peer ∈ onions) :
    HistoryInv P key onions (historyStep P w op) := by
  cases op with
  | add call onion name noiseKey =>
      exact hinv.add hcoll call hop name noiseKey
  | save call peer text isOutgoing timestamp =>
      exact hinv.save hcoll call hop text isOutgoing timestamp
  | forget call peer =>
      exact hinv.forget hcoll call hop

theorem historyRun_inv
    (hinv : HistoryInv P key onions w) (hcoll : NoCollision P key onions) (ops : List HistoryOp)
    (hops : ∀ op ∈ ops, op.peer ∈ onions) :
    HistoryInv P key onions (historyRun P w ops) := by
  induction ops generalizing w with
  | nil =>
      exact hinv
  | cons op ops ih =>
      exact ih (historyStep_inv hinv hcoll op (hops op List.mem_cons_self))
        fun op' h => hops op' (List.mem_cons_of_mem op h)

theorem historyStart_inv
    (P : DbPrimitives) (key : Key) :
    HistoryInv P key onions (historyStart key) where
  opened := rfl
  known := fun _ h => absurd h List.not_mem_nil
  once := List.nodup_nil
  book := .nil
  talk := fun _ _ => .nil

end Invariant

section Readers

variable {P : DbPrimitives} {key : Key} {onions : List Bytes} {w : HistoryWorld} {σ : Type}

/-- Every library call of `db_get_history` succeeds. -/
structure HistoryCall.Succeeds (call : HistoryCall) : Prop where
  hash : call.hash = true
  prepare : call.prepare = true
  bind : call.bind = true
  rows : call.rows = none
  plainAlloc : ∀ n, call.plainAlloc n = true

/-- Every library call of a list of contacts succeeds. -/
structure ListCall.Succeeds (call : ListCall) : Prop where
  prepare : call.prepare = true
  prepareMsg : call.prepareMsg = true
  rows : call.rows = none
  bind : ∀ n, call.bind n = true
  step : ∀ n, call.step n = true
  plainAlloc : ∀ n, call.plainAlloc n = true

/-- The newest rows of a peer hold its newest messages. -/
theorem newestRows_recent
    {peer : Bytes} {talk : List Message}
    (h : List.Forall₂ (Stored P key peer) (w.db.messages.select (ofPeerLabel P key peer)) talk)
    (limit : Nat) :
    List.Forall₂ (fun row m => 0 ∉ m.text ∧ ∃ call, row = messageRow P call key peer m)
      (newestRows (P.generichash key peer).toList limit w.db) (recent limit talk) := by
  have hnewest := Newest.forall₂_newest MessageRow.timestamp Message.timestamp
    (fun row m hrow => by
      obtain ⟨-, call, hrow⟩ := hrow
      rw [hrow]
      rfl) limit h (Table.select_sorted _ _)
  unfold newestRows
  rw [List.forall₂_map_left_iff]
  exact hnewest

/-- The loop shows the texts in their order, until an allocation fails. -/
theorem historyLoop_shows
    (hopen : P.Opens) (visitor : Message → σ → σ) (call : HistoryCall) {peer : Bytes}
    {rows : List MessageRow} {talk : List Message}
    (h : List.Forall₂ (fun row m => 0 ∉ m.text ∧ ∃ call, row = messageRow P call key peer m)
      rows talk) (n : Nat) (ctx : σ) :
    ∃ k ≤ talk.length,
      (historyLoop P visitor call key rows n ctx).2 =
        (talk.take k).foldl (fun c m => visitor m c) ctx ∧
      ((historyLoop P visitor call key rows n ctx).1 = .ok () → k = talk.length) ∧
      ((∀ n, call.plainAlloc n = true) →
        (historyLoop P visitor call key rows n ctx).1 = .ok ()) := by
  induction h generalizing n ctx with
  | nil =>
      exact ⟨0, Nat.le_refl 0, rfl, fun _ => rfl, fun _ => rfl⟩
  | @cons row m rows talk hrow _ ih =>
      obtain ⟨hzero, answer, rfl⟩ := hrow
      unfold historyLoop
      rw [if_neg (by rw [messageRow_cipher]; omega)]
      cases halloc : call.plainAlloc n with
      | false =>
          refine ⟨0, Nat.zero_le _, rfl, fun h => ?_, fun h => ?_⟩
          · cases h
          · rw [h n] at halloc
            cases halloc
      | true =>
          rw [if_neg (by decide), dbDecryptRow_messageRow hopen]
          dsimp only
          rw [cstr_append_zero hzero]
          obtain ⟨k, hk, hshown, hall, hok⟩ := ih (n + 1) (visitor m ctx)
          exact ⟨k + 1, Nat.succ_le_succ hk, hshown, fun h => congrArg (· + 1) (hall h), hok⟩

/-- The rows of the table show the book. -/
theorem foldl_listed
    (hopen : P.Opens) (visitor : Contact → σ → σ) {rows : List ContactRow} {book : List Contact}
    (h : List.Forall₂ (Listed P key) rows book) (ctx : σ) :
    rows.foldl (fun ctx row =>
      match dbDecryptRow P key row.record contactPayloadSize with
      | .error _ => ctx
      | .ok plain => visitor (payloadContact plain) ctx) ctx =
      book.foldl (fun ctx c => visitor c ctx) ctx := by
  induction h generalizing ctx with
  | nil =>
      rfl
  | @cons row c rows book hrow _ ih =>
      obtain ⟨honion, hname, call, rfl⟩ := hrow
      rw [List.foldl_cons, List.foldl_cons, dbDecryptRow_contactRow hopen]
      dsimp only
      rw [payloadContact_listed honion hname]
      exact ih _

/-- The end of the order is what is left by a limit of one. -/
theorem recent_one
    (talk : List Message) :
    (recent 1 talk).head? = (inOrder talk).getLast? := by
  have hlen : (inOrder talk).length = talk.length := List.length_insertionSort _ _
  unfold recent
  rw [List.head?_drop, List.getLast?_eq_getElem?, hlen]

/-- The summary of a contact is made from its last message. -/
theorem summaryOf_last
    (hopen : P.Opens) {c : Contact} {talk : List Message}
    (h : List.Forall₂ (Stored P key c.onion)
      (w.db.messages.select (ofPeerLabel P key c.onion)) talk) :
    summaryOf P true key c (newestRows (P.generichash key c.onion).toList 1 w.db).head? =
      match (inOrder talk).getLast? with
      | none => ⟨c, none, false, 0⟩
      | some m => ⟨c, some m.text, m.isOutgoing, m.timestamp⟩ := by
  have hrecent := newestRows_recent h 1
  rw [← recent_one]
  generalize newestRows (P.generichash key c.onion).toList 1 w.db = rows at hrecent ⊢
  generalize recent 1 talk = last at hrecent ⊢
  cases hrecent with
  | nil =>
      rfl
  | @cons row m rows last hrow _ =>
      obtain ⟨hzero, call, rfl⟩ := hrow
      have hnonce : (messageRow P call key c.onion m).record.nonce.length = noxNonceLen :=
        List.Vector.toList_length _
      rw [List.head?_cons, List.head?_cons]
      unfold summaryOf lastText
      dsimp only
      rw [decryptPayload_messageRow hopen, if_pos ⟨hnonce, by rw [messageRow_cipher]; omega⟩,
        if_neg (by decide)]
      dsimp only
      rw [cstr_append_zero hzero]
      rfl

/-- The loop over the contacts shows their summaries. -/
theorem summaryLoop_shows
    (hopen : P.Opens) (hinv : HistoryInv P key onions w) (visitor : Summary → σ → σ)
    {call : ListCall} (hcall : call.Succeeds) {rows : List ContactRow} {book : List Contact}
    (h : List.Forall₂ (Listed P key) rows book) (hknown : ∀ c ∈ book, c.onion ∈ onions)
    (n : Nat) (ctx : σ) :
    summaryLoop P visitor call key w.db rows n ctx =
      (book.map w.chats.summary).foldl (fun ctx s => visitor s ctx) ctx := by
  induction h generalizing n ctx with
  | nil =>
      rfl
  | @cons row c rows book hrow _ ih =>
      obtain ⟨honion, hname, answer, rfl⟩ := hrow
      have hrecord : dbDecryptRow P key (contactRow P answer c.onion c.name c.noiseKey key).record
          contactPayloadSize = .ok (contactPayload c.onion c.name c.noiseKey) :=
        dbDecryptRow_contactRow hopen
      have hlast := summaryOf_last hopen (hinv.talk c.onion (hknown c List.mem_cons_self))
      unfold dbDecryptRow at hrecord
      unfold summaryLoop
      split at hrecord
      · cases hrecord
      · rename_i hfits
        rw [if_neg hfits, hrecord]
        dsimp only
        rw [hcall.bind, hcall.step, hcall.plainAlloc, if_neg (by decide), if_pos rfl,
          payloadContact_listed honion hname]
        rw [show (contactRow P answer c.onion c.name c.noiseKey key).onionHash =
          (P.generichash key c.onion).toList from rfl, hlast]
        exact ih (fun c' h => hknown c' (List.mem_cons_of_mem c h)) (n + 1) _

end Readers

/--
After every history of calls `db_get_history` shows messages of the conversation with the peer in
the order of their times, from the newest `limit` on, whatever the libraries answer.  It shows all
of them if it returns `NOX_OK` and the query delivers its rows, and it does so if no library call
fails.
-/
theorem history_shows_recent
    {σ : Type} (P : DbPrimitives) (key : Key) (onions : List Bytes) (ops : List HistoryOp)
    (hopen : P.Opens) (hcoll : NoCollision P key onions) (hops : ∀ op ∈ ops, op.peer ∈ onions)
    (visitor : Message → σ → σ) (call : HistoryCall) (peer : Bytes) (hpeer : peer ∈ onions)
    (limit : Int) (ctx : σ) :
    let w := historyRun P (historyStart key) ops
    let shown := recent (historyLimit limit) (w.chats.talk peer)
    let r := dbGetHistory P visitor call peer limit w.db ctx
    ∃ k ≤ shown.length, r.2 = (shown.take k).foldl (fun c m => visitor m c) ctx ∧
      (r.1 = .ok () → call.rows = none → k = shown.length) ∧
      (call.Succeeds → peer.length = noxOnionLen → r.1 = .ok ()) := by
  intro w shown r
  have hinv := historyRun_inv (historyStart_inv P key) hcoll ops hops
  have hrows := newestRows_recent (hinv.talk peer hpeer) (historyLimit limit)
  change List.Forall₂ _ _ shown at hrows
  have hr : r = dbGetHistory P visitor call peer limit w.db ctx := rfl
  unfold dbGetHistory at hr
  rw [show w.db.dbKey = some key from hinv.opened] at hr
  dsimp only at hr
  cases hhash : hashOnion P call.hash peer w.db.toDbState with
  | error err =>
      rw [hhash] at hr
      refine ⟨0, Nat.zero_le _, by rw [hr]; rfl, fun hok => ?_, fun hcall hlen => ?_⟩
      · rw [hr] at hok
        cases hok
      · rw [hcall.hash, hashOnion_of_open hinv.opened hlen] at hhash
        cases hhash
  | ok hash =>
      obtain ⟨key', hkey', -, rfl⟩ := hashOnion_ok hhash
      cases hinv.opened.symm.trans hkey'
      rw [hhash] at hr
      dsimp only at hr
      split at hr
      · rename_i hfail
        refine ⟨0, Nat.zero_le _, by rw [hr]; rfl, fun hok => ?_, fun hcall _ => ?_⟩
        · rw [hr] at hok
          cases hok
        · rw [hcall.prepare, hcall.bind] at hfail
          cases hfail
      · obtain ⟨k, hk, hshown, hall, hok⟩ := historyLoop_shows hopen visitor call
          (List.forall₂_take (call.rows.getD _) hrows) 0 ctx
        rw [← hr] at hshown hall hok
        rw [List.take_take] at hshown
        refine ⟨min k _, ?_, hshown, fun h hnone => ?_, fun hcall _ => hok hcall.plainAlloc⟩
        · rw [List.length_take] at hk
          omega
        · have hk' := hall h
          rw [hnone, Option.getD_none, List.length_take, hrows.length_eq] at hk'
          rw [hnone, Option.getD_none, hrows.length_eq]
          omega

/-- A call of `db_get_history` in which nothing fails. -/
def sampleHistoryCall : HistoryCall :=
  { hash := true, prepare := true, bind := true, rows := none, plainAlloc := fun _ => true }

/-- A contact is added, a text for it is saved twice, with the earlier time last, and one for
somebody else, whose conversation is then deleted. -/
def sampleChat (peer other text : CString) : List HistoryOp :=
  [.add (sampleDbCall 1) peer text (samplePair 7).pub, .save (sampleDbCall 2) peer text true 5,
    .save (sampleDbCall 3) peer text false 3, .save (sampleDbCall 4) other text true 4,
    .forget (sampleDbCall 5) other]

/-- The earlier message is shown first. -/
theorem history_shows_recent_two :
    let w := historyRun sampleDbPrimitives (historyStart (samplePair 8).priv)
      (sampleChat (sampleAddress 0x62 (by decide)) (sampleAddress 0x63 (by decide))
        ⟨[0x68], by decide⟩)
    dbGetHistory sampleDbPrimitives (fun m seen => seen ++ [m]) sampleHistoryCall (samplePeer 0x62)
      2 w.db [] = (.ok (), [⟨[0x68], false, 3⟩, ⟨[0x68], true, 5⟩]) := by
  have hcoll : NoCollision sampleDbPrimitives (samplePair 8).priv
      [samplePeer 0x62, samplePeer 0x63] := by
    unfold NoCollision
    decide +kernel
  have hops : ∀ op ∈ sampleChat (sampleAddress 0x62 (by decide)) (sampleAddress 0x63 (by decide))
      ⟨[0x68], by decide⟩, op.peer ∈ [samplePeer 0x62, samplePeer 0x63] := by
    decide +kernel
  intro w
  obtain ⟨k, -, hshown, hall, hok⟩ := history_shows_recent sampleDbPrimitives (samplePair 8).priv
    [samplePeer 0x62, samplePeer 0x63] _ sampleDbPrimitives_opens hcoll hops
    (fun m seen => seen ++ [m]) sampleHistoryCall (samplePeer 0x62) (by decide) 2 []
  have hresult := hok ⟨rfl, rfl, rfl, rfl, fun _ => rfl⟩ (by decide)
  have hrecent : recent (historyLimit 2) ((historyRun sampleDbPrimitives
      (historyStart (samplePair 8).priv) (sampleChat (sampleAddress 0x62 (by decide))
        (sampleAddress 0x63 (by decide)) ⟨[0x68], by decide⟩)).chats.talk (samplePeer 0x62)) =
      [⟨[0x68], false, 3⟩, ⟨[0x68], true, 5⟩] := by
    decide +kernel
  rw [hall hresult rfl, List.take_length, hrecent] at hshown
  exact Prod.ext hresult hshown

/--
After every history of calls, and if no library call fails on the way, `db_list_contacts` shows the
address book, and `db_list_contacts_with_summary` shows each contact once, with the last message of
its conversation.
-/
theorem summaries_shown
    {σ : Type} (P : DbPrimitives) (key : Key) (onions : List Bytes) (ops : List HistoryOp)
    (hopen : P.Opens) (hcoll : NoCollision P key onions) (hops : ∀ op ∈ ops, op.peer ∈ onions)
    (call : ListCall) (hcall : call.Succeeds) (visitor : Contact → σ → σ)
    (summaryVisitor : Summary → σ → σ) (ctx : σ) :
    let w := historyRun P (historyStart key) ops
    dbListContacts P visitor call w.db ctx =
        (.ok (), w.chats.book.foldl (fun ctx c => visitor c ctx) ctx) ∧
      dbListContactsWithSummary P summaryVisitor call w.db ctx =
        (.ok (), (w.chats.book.map w.chats.summary).foldl (fun ctx s => summaryVisitor s ctx) ctx) ∧
      (w.chats.book.map Contact.onion).Nodup := by
  intro w
  have hinv := historyRun_inv (historyStart_inv P key) hcoll ops hops
  have hopened : w.db.dbKey = some key := hinv.opened
  refine ⟨?_, ?_, hinv.once⟩
  · unfold dbListContacts
    rw [hopened]
    dsimp only
    rw [hcall.prepare, if_neg (by decide), hcall.rows, Option.getD_none, List.take_length,
      foldl_listed hopen visitor hinv.book]
  · unfold dbListContactsWithSummary
    rw [hopened]
    dsimp only
    rw [hcall.prepare, hcall.prepareMsg, if_neg (by decide), hcall.rows, Option.getD_none,
      List.take_length, summaryLoop_shows hopen hinv summaryVisitor hcall hinv.book hinv.known]

/-- A list of contacts in which nothing fails. -/
def sampleListCall : ListCall :=
  { prepare := true, prepareMsg := true, rows := none, bind := fun _ => true
    step := fun _ => true, plainAlloc := fun _ => true }

/-- The contact is shown with the message of the later time. -/
theorem summaries_shown_one :
    let w := historyRun sampleDbPrimitives (historyStart (samplePair 8).priv)
      (sampleChat (sampleAddress 0x62 (by decide)) (sampleAddress 0x63 (by decide))
        ⟨[0x68], by decide⟩)
    dbListContactsWithSummary sampleDbPrimitives (fun s seen => seen ++ [s]) sampleListCall w.db
      [] = (.ok (), [⟨⟨samplePeer 0x62, [0x68], (samplePair 7).pub⟩, some [0x68], true, 5⟩]) := by
  have hcoll : NoCollision sampleDbPrimitives (samplePair 8).priv
      [samplePeer 0x62, samplePeer 0x63] := by
    unfold NoCollision
    decide +kernel
  have hops : ∀ op ∈ sampleChat (sampleAddress 0x62 (by decide)) (sampleAddress 0x63 (by decide))
      ⟨[0x68], by decide⟩, op.peer ∈ [samplePeer 0x62, samplePeer 0x63] := by
    decide +kernel
  intro w
  have hshown := (summaries_shown (σ := List Summary) sampleDbPrimitives (samplePair 8).priv
    [samplePeer 0x62, samplePeer 0x63] _ sampleDbPrimitives_opens hcoll hops sampleListCall
    ⟨rfl, rfl, rfl, fun _ => rfl, fun _ => rfl, fun _ => rfl⟩ (fun _ seen => seen)
    (fun s seen => seen ++ [s]) []).2.1
  have hbook : (historyRun sampleDbPrimitives (historyStart (samplePair 8).priv)
      (sampleChat (sampleAddress 0x62 (by decide)) (sampleAddress 0x63 (by decide))
        ⟨[0x68], by decide⟩)).chats.book = [⟨samplePeer 0x62, [0x68], (samplePair 7).pub⟩] := by
    decide +kernel
  have hlast : (historyRun sampleDbPrimitives (historyStart (samplePair 8).priv)
      (sampleChat (sampleAddress 0x62 (by decide)) (sampleAddress 0x63 (by decide))
        ⟨[0x68], by decide⟩)).chats.summary ⟨samplePeer 0x62, [0x68], (samplePair 7).pub⟩ =
      ⟨⟨samplePeer 0x62, [0x68], (samplePair 7).pub⟩, some [0x68], true, 5⟩ := by
    decide +kernel
  rw [hbook, List.map_singleton, hlast] at hshown
  exact hshown

end Db
end Noxtor
