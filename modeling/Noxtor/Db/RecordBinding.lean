import Noxtor.Db.QueueHistory

/-!
# What a stored record is bound to

An attacker who does not know `db_key` can rearrange the rows and columns of the database, but
cannot seal a record himself (`Unforged`).  So everything that `db_get_contact` and
`db_process_queue` return was sealed by an honest call.

The label of a row is not part of the sealed payload, and the readers do not compare the address
in a contact with the one they were asked for.  That a record belongs to the address is therefore
known only as long as rows stay whole (`WholeRows`): a payload that is moved under another label is
accepted there.
-/

namespace Noxtor
namespace Db

open ByteString

/-- An honest call of `db_add_contact` or `db_queue_message`. -/
inductive Honest where
  | contact (call : DbCall) (onion name : CString) (noiseKey : Key)
  | message (call : DbCall) (onion text : CString)

namespace Honest

/-- The address that the call is about. -/
def onion : Honest → Bytes
  | contact _ o _ _ => o.1
  | message _ o _ => o.1

/-- The sizes that the call checks. -/
def Fits : Honest → Prop
  | contact _ o name _ => o.1.length = noxOnionLen ∧ name.1.length ≤ noxContactNameLen
  | message _ o text => o.1.length = noxOnionLen ∧ text.1.length ≤ dbMaxMsgLen

def nonce : Honest → Block 24
  | contact call _ _ _ => call.nonce
  | message call _ _ => call.nonce

/-- What the call seals. -/
def payload : Honest → Bytes
  | contact _ o name noiseKey => contactPayload o.1 name.1 noiseKey
  | message _ _ text => text.1 ++ [0]

/-- The sealed record. -/
def record (P : DbPrimitives) (key : Key) (h : Honest) : Record :=
  { nonce := h.nonce.toList, cipher := P.secretbox key h.nonce h.payload }

/-- The label of the row. -/
def label (P : DbPrimitives) (key : Key) (h : Honest) : Bytes :=
  (P.generichash key h.onion).toList

end Honest

section Attacker

variable (P : DbPrimitives) (key : Key) (hist : List Honest)

/-- The effect of an honest call. -/
def honestStep (db : DbState) : Honest → DbState
  | .contact call o name noiseKey => (dbAddContact P call o.1 name.1 noiseKey db).2
  | .message call o text => (dbQueueMessage P call o.1 text.1 db).2

/-- A row of `contacts` as an honest call has written it. -/
def WrittenContact (row : ContactRow) : Prop :=
  ∃ call o name noiseKey, Honest.contact call o name noiseKey ∈ hist ∧
    (Honest.contact call o name noiseKey).Fits ∧
    row = ⟨(Honest.contact call o name noiseKey).label P key,
      (Honest.contact call o name noiseKey).record P key⟩

/-- A row of `queue` as an honest call has written it. -/
def WrittenMessage (row : QueueRow) : Prop :=
  ∃ call o text, Honest.message call o text ∈ hist ∧ (Honest.message call o text).Fits ∧
    row = ⟨(Honest.message call o text).label P key, (Honest.message call o text).record P key⟩

/-- Every record that opens was sealed by an honest call. -/
structure Unforged (db : DbState) : Prop where
  opened : db.dbKey = some key
  contacts : ∀ row ∈ db.contacts, ∀ plain,
    P.secretboxOpen key (Block.ofBytes 24 row.record.nonce) row.record.cipher = some plain →
    ∃ h ∈ hist, h.Fits ∧ row.record = h.record P key
  queue : ∀ row ∈ db.queue.rows, ∀ plain,
    P.secretboxOpen key (Block.ofBytes 24 row.2.record.nonce) row.2.record.cipher = some plain →
    ∃ h ∈ hist, h.Fits ∧ row.2.record = h.record P key

/-- The rows are whole: label and record were written by one call, into this table. -/
structure WholeRows (db : DbState) : Prop where
  contacts : ∀ row ∈ db.contacts, WrittenContact P key hist row
  queue : ∀ row ∈ db.queue.rows, WrittenMessage P key hist row.2

end Attacker

section HonestRows

variable {P : DbPrimitives} {key : Key} {hist : List Honest}

/-- `db_add_contact` writes one row or changes nothing. -/
theorem dbAddContact_cases
    (call : DbCall) (onion name : Bytes) (noiseKey : Key) (db : DbState) :
    (dbAddContact P call onion name noiseKey db).2 = db ∨
    ∃ key, db.dbKey = some key ∧ onion.length = noxOnionLen ∧ name.length ≤ noxContactNameLen ∧
      (dbAddContact P call onion name noiseKey db).2 = { db with
        contacts := replaceContact ⟨(P.generichash key onion).toList, ⟨call.nonce.toList,
          P.secretbox key call.nonce (contactPayload onion name noiseKey)⟩⟩ db.contacts } := by
  unfold dbAddContact
  split
  · exact Or.inl rfl
  · rename_i key hkey
    split
    · exact Or.inl rfl
    · rename_i hsize
      rw [not_or, not_not, not_lt] at hsize
      split
      · exact Or.inl rfl
      · rename_i record hrecord
        split
        · exact Or.inl rfl
        · rename_i hash hhash
          obtain ⟨key', hkey', -, rfl⟩ := hashOnion_ok hhash
          cases hkey.symm.trans hkey'
          split
          · exact Or.inl rfl
          split
          · exact Or.inl rfl
          split
          · exact Or.inl rfl
          · refine Or.inr ⟨key, hkey, hsize.1, hsize.2, ?_⟩
            unfold encryptPayload at hrecord
            split at hrecord
            · cases hrecord
            split at hrecord
            · cases hrecord
            · cases hrecord
              rfl

/-- Honest calls write whole rows. -/
theorem honestStep_whole
    {db : DbState} (hkey : db.dbKey = some key) (h : WholeRows P key hist db) {op : Honest}
    (hop : op ∈ hist) :
    (honestStep P db op).dbKey = some key ∧ WholeRows P key hist (honestStep P db op) := by
  cases op with
  | contact call o name noiseKey =>
      dsimp only [honestStep]
      rcases dbAddContact_cases (P := P) call o.1 name.1 noiseKey db with
        hsame | ⟨key', hkey', honion, hname, hres⟩
      · rw [hsame]
        exact ⟨hkey, h⟩
      · cases hkey.symm.trans hkey'
        rw [hres]
        refine ⟨hkey, fun row hrow => ?_, h.queue⟩
        obtain hrow | hrow := List.mem_append.mp hrow
        · exact h.contacts row (List.mem_of_mem_filter hrow)
        · rw [List.mem_singleton.mp hrow]
          exact ⟨call, o, name, noiseKey, hop, ⟨honion, hname⟩, rfl⟩
  | message call o text =>
      dsimp only [honestStep]
      rcases dbQueueMessage_cases (P := P) call o.1 text.1 db with
        ⟨err, hres⟩ | ⟨key', hkey', honion, htext, hres⟩
      · rw [hres]
        exact ⟨hkey, h⟩
      · cases hkey.symm.trans hkey'
        rw [hres]
        refine ⟨hkey, h.contacts, fun row hrow => ?_⟩
        obtain hrow | hrow := List.mem_append.mp hrow
        · exact h.queue row hrow
        · rw [List.mem_singleton.mp hrow]
          exact ⟨call, o, text, hop, ⟨honion, htext⟩, rfl⟩

theorem honestRun_whole
    {db : DbState} (ops : List Honest) (hkey : db.dbKey = some key)
    (h : WholeRows P key hist db) (hops : ∀ op ∈ ops, op ∈ hist) :
    (ops.foldl (honestStep P) db).dbKey = some key ∧
      WholeRows P key hist (ops.foldl (honestStep P) db) := by
  induction ops generalizing db with
  | nil =>
      exact ⟨hkey, h⟩
  | cons op ops ih =>
      obtain ⟨hkey', h'⟩ := honestStep_whole hkey h (hops op List.mem_cons_self)
      exact ih hkey' h' fun op' hmem => hops op' (List.mem_cons_of_mem op hmem)

/-- Whole rows are not forged. -/
theorem WholeRows.unforged
    {db : DbState} (hkey : db.dbKey = some key) (h : WholeRows P key hist db) :
    Unforged P key hist db where
  opened := hkey
  contacts := by
    intro row hrow plain _
    obtain ⟨call, o, name, noiseKey, hmem, hfits, rfl⟩ := h.contacts row hrow
    exact ⟨_, hmem, hfits, rfl⟩
  queue := by
    intro row hrow plain _
    obtain ⟨call, o, text, hmem, hfits, hrow⟩ := h.queue row hrow
    rw [hrow]
    exact ⟨_, hmem, hfits, rfl⟩

end HonestRows

section Readers

variable {P : DbPrimitives} {key : Key} {hist : List Honest}

/-- A callback that keeps every text it is given. -/
def tracing {σ : Type} (send : Callback σ) : Callback (σ × List Bytes) := fun text c =>
  ((send text c.1).1, (send text c.1).2, c.2 ++ [text])

theorem contactPayload_name
    (onion : Bytes) {name : Bytes} (hzero : 0 ∉ name) (hlen : name.length ≤ noxContactNameLen)
    (noiseKey : Key) :
    payloadName (contactPayload onion name noiseKey) = name := by
  have hmax : noxContactNameLen = 64 := rfl
  have hpad : (Block.ofBytes 65 name).toList = name ++ [0] ++ List.replicate (64 - name.length) 0 := by
    rw [Block.toList_ofBytes_of_ge (by omega), List.append_assoc, List.singleton_append,
      ← List.replicate_succ]
    congr 2
    omega
  unfold payloadName contactPayload
  rw [List.append_assoc, List.drop_left' (List.Vector.toList_length _),
    List.take_left' (List.Vector.toList_length _), hpad]
  unfold App.cstr
  rw [List.append_assoc, List.takeWhile_append_of_pos]
  · simp
  · intro b hb
    have hne : b ≠ 0 := by
      rintro rfl
      exact hzero hb
    simpa using hne

theorem contactPayload_key
    (onion name : Bytes) (noiseKey : Key) :
    payloadKey (contactPayload onion name noiseKey) = noiseKey := by
  unfold payloadKey contactPayload
  rw [List.drop_left' (by simp), Block.ofBytes_toList]

/-- As a string a contact is its address. -/
theorem contactPayload_cstr
    {onion : Bytes} (hzero : 0 ∉ onion) (hlen : onion.length = noxOnionLen) (name : Bytes)
    (noiseKey : Key) :
    App.cstr (contactPayload onion name noiseKey) = onion := by
  have hmax : noxOnionLen = 62 := rfl
  have hpad : (Block.ofBytes 63 onion).toList = onion ++ [0] := by
    rw [Block.toList_ofBytes_of_ge (by omega), hlen]
    rfl
  unfold contactPayload App.cstr
  rw [hpad, List.append_assoc, List.append_assoc, List.takeWhile_append_of_pos]
  · simp
  · intro b hb
    have hne : b ≠ 0 := by
      rintro rfl
      exact hzero hb
    simpa using hne

/-- `decrypt_payload` returns what was sealed. -/
theorem decryptPayload_ok
    {cipher plain : Bytes} {nonce : Block 24} {plainLen : Nat}
    (h : decryptPayload P key cipher nonce plainLen = .ok plain) :
    P.secretboxOpen key nonce cipher = some plain := by
  unfold decryptPayload at h
  split at h
  · cases h
  split at h
  · cases h
  split at h
  · cases h
  · rename_i plain' hopen
    cases h
    exact hopen

/-- Where the result of `db_get_contact` comes from. -/
theorem dbGetContact_ok
    {call : DbCall} {onion name : Bytes} {nameLen : Nat} {noiseKey : Key} {db : DbState}
    (hkey : db.dbKey = some key)
    (h : dbGetContact P call onion nameLen db = .ok (name, noiseKey)) :
    ∃ row ∈ db.contacts, row.onionHash = (P.generichash key onion).toList ∧
      onion.length = noxOnionLen ∧ ∃ plain,
        P.secretboxOpen key (Block.ofBytes 24 row.record.nonce) row.record.cipher = some plain ∧
        plain.length = contactPayloadSize ∧ name = (payloadName plain).take (nameLen - 1) ∧
        noiseKey = payloadKey plain := by
  unfold dbGetContact at h
  rw [hkey] at h
  dsimp only at h
  split at h
  · cases h
  split at h
  · cases h
  · rename_i hash hhash
    obtain ⟨key', hkey', hlen, rfl⟩ := hashOnion_ok hhash
    cases hkey.symm.trans hkey'
    split at h
    · cases h
    split at h
    · cases h
    · rename_i row hrow
      split at hrow
      · split at h
        · cases h
        · rename_i plain hplain
          split at h
          · cases h
          · rename_i hsize
            cases h
            unfold dbDecryptRow at hplain
            split at hplain
            · cases hplain
            · have hlabel := List.find?_some hrow
              exact ⟨row, List.mem_of_find?_eq_some hrow, by simpa using hlabel, hlen, plain,
                decryptPayload_ok hplain, not_not.mp hsize, rfl, rfl⟩
      · cases hrow

/-- The snapshot is made of rows of the query. -/
theorem fillBatch_mem
    {rowAlloc : Nat → Bool} (rows : List (Nat × QueueRow)) {batch items : List BatchItem}
    (hfill : fillBatch rowAlloc rows batch = some items) :
    ∀ item ∈ items, item ∈ batch ∨ ∃ row ∈ rows, item = batchItem row := by
  induction rows generalizing batch with
  | nil =>
      cases hfill
      exact fun item hmem => Or.inl hmem
  | cons row rows ih =>
      unfold fillBatch at hfill
      intro item hmem
      have hlater : (∃ r ∈ rows, item = batchItem r) → ∃ r ∈ row :: rows, item = batchItem r := by
        rintro ⟨r, hr, rfl⟩
        exact ⟨r, List.mem_cons_of_mem row hr, rfl⟩
      split at hfill
      · cases hfill
        exact Or.inl hmem
      split at hfill
      · exact (ih hfill item hmem).imp_right hlater
      split at hfill
      · cases hfill
      · rcases ih hfill item hmem with hold | hnew
        · obtain hold | hnew := List.mem_append.mp hold
          · exact Or.inl hold
          · exact Or.inr ⟨row, List.mem_cons_self, List.mem_singleton.mp hnew⟩
        · exact Or.inr (hlater hnew)

/-- The callback is given opened payloads of the snapshot. -/
theorem sendBatch_traced
    {σ : Type} {send : Callback σ} {call : FlushCall} (items : List BatchItem) (n : Nat)
    (db : DbState) (ctx : σ) (seen : List Bytes) :
    ∀ text ∈ (sendBatch P (tracing send) call key items n db (ctx, seen)).2.2.2,
      text ∈ seen ∨ ∃ item ∈ items, ∃ plain,
        P.secretboxOpen key item.nonce item.cipher = some plain ∧ plain.getLast? = some 0 ∧
        text = App.cstr plain := by
  induction items generalizing n db ctx seen with
  | nil =>
      exact fun text hmem => Or.inl hmem
  | cons item items ih =>
      intro text hmem
      have hlater : ∀ P' : BatchItem → Prop, (∃ i ∈ items, P' i) → ∃ i ∈ item :: items, P' i := by
        rintro P' ⟨i, hi, hP⟩
        exact ⟨i, List.mem_cons_of_mem item hi, hP⟩
      unfold sendBatch at hmem
      split at hmem
      · exact Or.inl hmem
      split at hmem
      · exact (ih _ _ _ _ text hmem).imp_right (hlater _)
      · rename_i plain hplain
        split at hmem
        · exact (ih _ _ _ _ text hmem).imp_right (hlater _)
        · rename_i hlast
          rw [not_not] at hlast
          have hthis : ∃ i ∈ item :: items, ∃ p, P.secretboxOpen key i.nonce i.cipher = some p ∧
              p.getLast? = some 0 ∧ App.cstr plain = App.cstr p :=
            ⟨item, List.mem_cons_self, plain, decryptPayload_ok hplain, hlast, rfl⟩
          dsimp only [tracing] at hmem
          rcases hsend : send (App.cstr plain) ctx with ⟨_ | _, ctx1⟩
          · rw [hsend] at hmem
            obtain hold | hnew := List.mem_append.mp hmem
            · exact Or.inl hold
            · rw [List.mem_singleton.mp hnew]
              exact Or.inr hthis
          · rw [hsend] at hmem
            rcases ih _ _ _ _ text hmem with hold | hnew
            · obtain hold | hnew := List.mem_append.mp hold
              · exact Or.inl hold
              · rw [List.mem_singleton.mp hnew]
                exact Or.inr hthis
            · exact Or.inr (hlater _ hnew)

/-- Where the texts come from that `db_process_queue` hands to its callback. -/
theorem dbProcessQueue_traced
    {σ : Type} {send : Callback σ} {call : FlushCall} {onion : Bytes} {db : DbState} {ctx : σ}
    (hkey : db.dbKey = some key) :
    ∀ text ∈ (dbProcessQueue P (tracing send) call onion db (ctx, [])).2.2.2,
      ∃ row ∈ db.queue.rows, row.2.recipientHash = (P.generichash key onion).toList ∧
        onion.length = noxOnionLen ∧ ∃ plain,
          P.secretboxOpen key (Block.ofBytes 24 row.2.record.nonce) row.2.record.cipher =
            some plain ∧ plain.getLast? = some 0 ∧ text = App.cstr plain := by
  intro text hmem
  unfold dbProcessQueue at hmem
  rw [hkey] at hmem
  dsimp only at hmem
  split at hmem
  · cases hmem
  · rename_i hash hhash
    obtain ⟨key', hkey', hlen, rfl⟩ := hashOnion_ok hhash
    cases hkey.symm.trans hkey'
    split at hmem
    · cases hmem
    split at hmem
    · cases hmem
    · rename_i batch hfill
      obtain hold | ⟨item, hitem, plain, hopen, hlast, rfl⟩ := sendBatch_traced _ _ _ _ _ text hmem
      · cases hold
      · obtain hold | ⟨row, hrow, rfl⟩ := fillBatch_mem _ hfill item hitem
        · cases hold
        · obtain ⟨hrow, hlabel⟩ := Table.mem_select.mp (List.mem_of_mem_take hrow)
          exact ⟨row, hrow, by simpa [ofRecipient] using hlabel, hlen, plain, hopen, hlast, rfl⟩

/-- A record that opens is opened to what was sealed. -/
theorem Honest.opened
    (hopen : P.Opens) {h : Honest} {plain : Bytes} {record : Record}
    (hrecord : record = h.record P key)
    (hplain : P.secretboxOpen key (Block.ofBytes 24 record.nonce) record.cipher = some plain) :
    plain = h.payload := by
  subst hrecord
  simp only [Honest.record, Block.ofBytes_toList, hopen key h.nonce] at hplain
  exact (Option.some.inj hplain).symm

/-- The name and the key in the payload of an honest contact. -/
theorem Honest.contact_read
    {call : DbCall} {o name : CString} {noiseKey : Key}
    (hfits : (Honest.contact call o name noiseKey).Fits) :
    (payloadName (Honest.contact call o name noiseKey).payload).take noxContactNameLen = name.1 ∧
      payloadKey (Honest.contact call o name noiseKey).payload = noiseKey := by
  constructor
  · simp only [Honest.payload]
    rw [contactPayload_name o.1 name.2 hfits.2]
    exact List.take_of_length_le hfits.2
  · exact contactPayload_key o.1 name.1 noiseKey

end Readers

/--
Whatever the attacker has done, what the readers return was sealed by an honest call: the name and
the key of a contact by a `db_add_contact`, or by a `db_queue_message` with a text of exactly 159
bytes; a text by a `db_queue_message`, or by a `db_add_contact`, in which case it is an address.
If the rows are whole, the call was one for the address that was asked for.
-/
theorem record_authentic
    (P : DbPrimitives) (key : Key) (hist : List Honest) (db : DbState) (hopen : P.Opens)
    (hdb : Unforged P key hist db) :
    (∀ call onion name noiseKey,
      dbGetContact P call onion (noxContactNameLen + 1) db = .ok (name, noiseKey) →
      ((∃ call o n, Honest.contact call o n noiseKey ∈ hist ∧ n.1 = name) ∨
        ∃ call o text, Honest.message call o text ∈ hist ∧ text.1.length = 159 ∧
          name = (payloadName (text.1 ++ [0])).take noxContactNameLen ∧
          noiseKey = payloadKey (text.1 ++ [0])) ∧
      (WholeRows P key hist db → NoCollision P key (onion :: hist.map Honest.onion) →
        ∃ call o n, Honest.contact call o n noiseKey ∈ hist ∧ o.1 = onion ∧ n.1 = name)) ∧
    ∀ (σ : Type) (send : Callback σ) call onion ctx,
      ∀ text ∈ (dbProcessQueue P (tracing send) call onion db (ctx, [])).2.2.2,
      ((∃ call o t, Honest.message call o t ∈ hist ∧ t.1 = text) ∨
        ∃ call o n noiseKey, Honest.contact call o n noiseKey ∈ hist ∧ o.1 = text) ∧
      (WholeRows P key hist db → NoCollision P key (onion :: hist.map Honest.onion) →
        ∃ call o t, Honest.message call o t ∈ hist ∧ o.1 = onion ∧ t.1 = text) := by
  refine ⟨fun call onion name noiseKey hget => ?_, fun σ send call onion ctx text hmem => ?_⟩
  · obtain ⟨row, hrow, hlabel, -, plain, hplain, hsize, rfl, rfl⟩ := dbGetContact_ok hdb.opened hget
    constructor
    · obtain ⟨h, hh, hfits, hrecord⟩ := hdb.contacts row hrow plain hplain
      have hpayload := Honest.opened hopen hrecord hplain
      subst hpayload
      cases h with
      | contact call' o n k =>
          obtain ⟨hname, hkey⟩ := Honest.contact_read hfits
          rw [← hkey] at hh
          exact Or.inl ⟨call', o, n, by simpa [Honest.payload, contactPayload_key] using hh,
            hname.symm⟩
      | message call' o t =>
          have hlen : (t.1 ++ [0]).length = 160 := hsize
          rw [List.length_append, List.length_singleton] at hlen
          exact Or.inr ⟨call', o, t, hh, by omega, rfl, rfl⟩
    · intro hwhole hcoll
      obtain ⟨call', o, n, k, hh, hfits, rfl⟩ := hwhole.contacts row hrow
      have hpayload := Honest.opened hopen rfl hplain
      subst hpayload
      obtain ⟨hname, hkey⟩ := Honest.contact_read hfits
      have honion : o.1 = onion := hcoll _ (List.mem_cons_of_mem _ (List.mem_map_of_mem hh)) _
        List.mem_cons_self (List.Vector.toList_injective hlabel)
      exact ⟨call', o, n, by rw [hkey]; exact hh, honion, hname.symm⟩
  · obtain ⟨row, hrow, hlabel, -, plain, hplain, hlast, rfl⟩ :=
      dbProcessQueue_traced hdb.opened text hmem
    constructor
    · obtain ⟨h, hh, hfits, hrecord⟩ := hdb.queue row hrow plain hplain
      have hpayload := Honest.opened hopen hrecord hplain
      subst hpayload
      cases h with
      | contact call' o n k =>
          exact Or.inr ⟨call', o, n, k, hh, (contactPayload_cstr o.2 hfits.1 n.1 k).symm⟩
      | message call' o t =>
          exact Or.inl ⟨call', o, t, hh, (cstr_append_zero t.2).symm⟩
    · intro hwhole hcoll
      obtain ⟨call', o, t, hh, hfits, hwritten⟩ := hwhole.queue row hrow
      rw [hwritten] at hlabel hplain
      have hpayload := Honest.opened hopen rfl hplain
      subst hpayload
      have honion : o.1 = onion := hcoll _ (List.mem_cons_of_mem _ (List.mem_map_of_mem hh)) _
        List.mem_cons_self (List.Vector.toList_injective hlabel)
      exact ⟨call', o, t, hh, honion, (cstr_append_zero t.2).symm⟩

/-- The address `samplePeer c`. -/
def sampleAddress (c : UInt8) (h : c ≠ 0) : CString :=
  ⟨samplePeer c, by simp [samplePeer, h.symm]⟩

/-- The contact 'b' with the name "b" and the key 7. -/
def contactB : Honest :=
  .contact (sampleDbCall 1) (sampleAddress 0x62 (by decide)) ⟨[0x62], by decide⟩ (samplePair 7).pub

/-- The contact 'c' with the name "c" and the key 9. -/
def contactC : Honest :=
  .contact (sampleDbCall 2) (sampleAddress 0x63 (by decide)) ⟨[0x63], by decide⟩ (samplePair 9).pub

theorem messageC_zero : (0 : UInt8) ∉ ([0x68] : Bytes) := by
  decide

/-- "h" for 'c'. -/
def messageC : Honest :=
  .message (sampleDbCall 3) (sampleAddress 0x63 (by decide)) ⟨[0x68], messageC_zero⟩

/-- The three calls. -/
def sampleHonest : List Honest :=
  [contactB, contactC, messageC]

/-- The database behind the three calls. -/
def honestDb : DbState :=
  sampleHonest.foldl (honestStep sampleDbPrimitives) sampleDb

/-- The two contacts have changed their labels, and "h" stands under that of 'b'. -/
def swappedDb : DbState where
  dbKey := some (samplePair 8).priv
  contacts :=
    [⟨contactC.label sampleDbPrimitives (samplePair 8).priv,
        contactB.record sampleDbPrimitives (samplePair 8).priv⟩,
      ⟨contactB.label sampleDbPrimitives (samplePair 8).priv,
        contactC.record sampleDbPrimitives (samplePair 8).priv⟩]
  queue := Table.empty.insert ⟨contactB.label sampleDbPrimitives (samplePair 8).priv,
    messageC.record sampleDbPrimitives (samplePair 8).priv⟩

theorem sampleHonest_fits : ∀ h ∈ sampleHonest, h.Fits := by
  simp only [sampleHonest, List.mem_cons, List.not_mem_nil, or_false]
  rintro h (rfl | rfl | rfl)
  · exact ⟨by decide, by decide⟩
  · exact ⟨by decide, by decide⟩
  · exact ⟨by decide, by decide⟩

/-- The attacker has only moved labels. -/
theorem swappedDb_unforged :
    Unforged sampleDbPrimitives (samplePair 8).priv sampleHonest swappedDb where
  opened := rfl
  contacts := by
    simp only [swappedDb, List.mem_cons, List.not_mem_nil, or_false]
    rintro row (rfl | rfl) plain -
    · exact ⟨contactB, by simp [sampleHonest], sampleHonest_fits _ (by simp [sampleHonest]), rfl⟩
    · exact ⟨contactC, by simp [sampleHonest], sampleHonest_fits _ (by simp [sampleHonest]), rfl⟩
  queue := by
    simp only [swappedDb, Table.rows_insert, Table.rows_empty, List.nil_append,
      List.mem_singleton]
    rintro row rfl plain -
    exact ⟨messageC, by simp [sampleHonest], sampleHonest_fits _ (by simp [sampleHonest]), rfl⟩

/-- The honest database returns the name and the key of 'b' from a call for 'b'. -/
theorem record_authentic_honest :
    ∃ call o n, Honest.contact call o n (samplePair 7).pub ∈ sampleHonest ∧
      o.1 = samplePeer 0x62 ∧ n.1 = [0x62] := by
  have hempty : WholeRows sampleDbPrimitives (samplePair 8).priv sampleHonest sampleDb :=
    ⟨(fun row hrow => by cases hrow), (fun row hrow => by cases hrow)⟩
  obtain ⟨hkey, hwhole⟩ := honestRun_whole sampleHonest rfl hempty (fun op h => h)
  have hget : dbGetContact sampleDbPrimitives (sampleDbCall 4) (samplePeer 0x62)
      (noxContactNameLen + 1) honestDb = .ok ([0x62], (samplePair 7).pub) := by
    decide +kernel
  have hcoll : NoCollision sampleDbPrimitives (samplePair 8).priv
      (samplePeer 0x62 :: sampleHonest.map Honest.onion) := by
    unfold NoCollision
    decide +kernel
  exact ((record_authentic sampleDbPrimitives (samplePair 8).priv sampleHonest honestDb
    sampleDbPrimitives_opens (hwhole.unforged hkey)).1 _ _ _ _ hget).2 hwhole hcoll

/--
The label of 'b' leads to the name and the key of 'c', which nobody has stored for 'b', and a flush
of 'b' hands over the text for 'c'.
-/
theorem record_relabelled :
    honestDb.contacts =
        [⟨contactB.label sampleDbPrimitives (samplePair 8).priv,
            contactB.record sampleDbPrimitives (samplePair 8).priv⟩,
          ⟨contactC.label sampleDbPrimitives (samplePair 8).priv,
            contactC.record sampleDbPrimitives (samplePair 8).priv⟩] ∧
      Unforged sampleDbPrimitives (samplePair 8).priv sampleHonest swappedDb ∧
      dbGetContact sampleDbPrimitives (sampleDbCall 4) (samplePeer 0x62) (noxContactNameLen + 1)
        swappedDb = .ok ([0x63], (samplePair 9).pub) ∧
      (¬ ∃ call o n, Honest.contact call o n (samplePair 9).pub ∈ sampleHonest ∧
        o.1 = samplePeer 0x62 ∧ n.1 = [0x63]) ∧
      (dbProcessQueue sampleDbPrimitives (tracing sampleAccept) sampleFlushCall (samplePeer 0x62)
        swappedDb ((), [])).2.2.2 = [[0x68]] ∧
      ¬ ∃ call o t, Honest.message call o t ∈ sampleHonest ∧ o.1 = samplePeer 0x62 ∧
        t.1 = [0x68] := by
  refine ⟨by decide +kernel, swappedDb_unforged, by decide +kernel, ?_, by decide +kernel, ?_⟩
  · rintro ⟨call, o, n, hmem, ho, hn⟩
    simp only [sampleHonest, contactB, contactC, messageC, List.mem_cons, Honest.contact.injEq,
      reduceCtorEq, List.not_mem_nil, or_false] at hmem
    rcases hmem with ⟨-, -, rfl, -⟩ | ⟨-, rfl, -, -⟩
    · exact absurd hn (by decide)
    · exact absurd ho (by decide)
  · rintro ⟨call, o, t, hmem, ho, ht⟩
    simp only [sampleHonest, contactB, contactC, messageC, List.mem_cons, Honest.message.injEq,
      reduceCtorEq, List.not_mem_nil, or_false, false_or] at hmem
    obtain ⟨-, rfl, -⟩ := hmem
    exact absurd ho (by decide)

end Db
end Noxtor
