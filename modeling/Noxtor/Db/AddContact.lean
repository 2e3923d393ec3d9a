import Noxtor.Db.RecordBinding

/-!
# What `db_add_contact` reports

The result of `db_add_contact` should say whether the contact is in the table.  There are three
ways through the function: it writes the row, it stops at a failed bind with the result of
`hash_onion`, which is `NOX_OK`, or it stops anywhere else with an error.
-/

namespace Noxtor
namespace Db

open ByteString

section AddContact

variable (P : DbPrimitives) (call : DbCall) (onion name : Bytes) (noiseKey : Key) (db : DbState)

/-- A lookup in which every library call succeeds. -/
def lookupCall : DbCall :=
  { malloc := true, nonce := Block.zero 24, box := true, hash := true, prepare := true
    bind := true, step := true }

/-- What the table holds for an address, as `db_get_contact` decodes it. -/
def storedContact (onion : Bytes) (db : DbState) : Except NoxErr (Bytes × Key) :=
  dbGetContact P lookupCall onion (noxContactNameLen + 1) db

/-- The statement of `db_add_contact` has been prepared. -/
def Prepared : Prop :=
  db.dbKey ≠ none ∧ onion.length = noxOnionLen ∧ name.length ≤ noxContactNameLen ∧
    call.box = true ∧ call.hash = true ∧ call.prepare = true

/-- A bind of the prepared statement fails. -/
def BindFails : Prop :=
  Prepared call onion name db ∧ call.bind = false

/-- Every library call succeeds. -/
def Written : Prop :=
  Prepared call onion name db ∧ call.bind = true ∧ call.step = true

instance : Decidable (Prepared call onion name db) :=
  inferInstanceAs (Decidable (_ ∧ _ ∧ _ ∧ _ ∧ _ ∧ _))

instance : Decidable (BindFails call onion name db) :=
  inferInstanceAs (Decidable (_ ∧ _))

instance : Decidable (Written call onion name db) :=
  inferInstanceAs (Decidable (_ ∧ _ ∧ _))

/-- The row that `db_add_contact` writes. -/
def contactRow (key : Key) : ContactRow where
  onionHash := (P.generichash key onion).toList
  record := { nonce := call.nonce.toList
              cipher := P.secretbox key call.nonce (contactPayload onion name noiseKey) }

/-- The database with the row in its table. -/
def DbState.withContact (db : DbState) (row : ContactRow) : DbState :=
  { db with contacts := replaceContact row db.contacts }

/--
`db_add_contact` tells the truth: it returns `NOX_OK` exactly if the table then holds the contact,
it changes nothing otherwise, and the rows of other addresses stay as they are.
-/
structure Truthful : Prop where
  result : (dbAddContact P call onion name noiseKey db).1 = .ok () ↔
    storedContact P onion (dbAddContact P call onion name noiseKey db).2 = .ok (name, noiseKey)
  failed : (dbAddContact P call onion name noiseKey db).1 ≠ .ok () →
    (dbAddContact P call onion name noiseKey db).2 = db
  others : ∀ key other, db.dbKey = some key → other ≠ onion → NoCollision P key [onion, other] →
    (dbAddContact P call onion name noiseKey db).2.contacts.filter
        (fun row => row.onionHash = (P.generichash key other).toList) =
      db.contacts.filter (fun row => row.onionHash = (P.generichash key other).toList) ∧
    storedContact P other (dbAddContact P call onion name noiseKey db).2 =
      storedContact P other db

end AddContact

section Ways

variable {P : DbPrimitives} {call : DbCall} {onion name : Bytes} {noiseKey key : Key}
  {db : DbState}

theorem contactPayload_length
    (onion name : Bytes) (noiseKey : Key) :
    (contactPayload onion name noiseKey).length = contactPayloadSize := by
  simp [contactPayload, contactPayloadSize]

theorem encryptPayload_contact
    (call : DbCall) (key : Key) (onion name : Bytes) (noiseKey : Key) :
    encryptPayload P call key (contactPayload onion name noiseKey)
        (contactPayloadSize + secretboxMacBytes) =
      if call.box = true then .ok (contactRow P call onion name noiseKey key).record
      else .error .crypto := by
  unfold encryptPayload
  rw [contactPayload_length, if_neg (Nat.lt_irrefl _)]
  cases call.box <;> rfl

/-- The function once the database is open and the arguments fit. -/
theorem dbAddContact_eq
    (hkey : db.dbKey = some key) (honion : onion.length = noxOnionLen)
    (hname : name.length ≤ noxContactNameLen) :
    dbAddContact P call onion name noiseKey db =
      if call.box = true then
        if call.hash = true then
          if call.prepare = true then
            if call.bind = true then
              if call.step = true then
                (.ok (), db.withContact (contactRow P call onion name noiseKey key))
              else (.error .db, db)
            else (.ok (), db)
          else (.error .db, db)
        else (.error .crypto, db)
      else (.error .crypto, db) := by
  have hsize : ¬ (onion.length ≠ noxOnionLen ∨ name.length > noxContactNameLen) := by
    omega
  obtain ⟨dbKey, contacts, queue⟩ := db
  dsimp only at hkey
  subst hkey
  unfold dbAddContact
  dsimp only
  rw [if_neg hsize, encryptPayload_contact]
  cases call.box with
  | false =>
      rfl
  | true =>
      have hhash : hashOnion P call.hash onion ⟨some key, contacts, queue⟩ =
          if call.hash = true then .ok (P.generichash key onion).toList else .error .crypto := by
        unfold hashOnion
        dsimp only
        rw [if_neg (not_not_intro honion)]
        cases call.hash <;> rfl
      rw [if_pos rfl, if_pos rfl]
      dsimp only
      rw [hhash]
      cases call.hash <;> cases call.prepare <;> cases call.bind <;> cases call.step <;> rfl

/-- With every library call succeeding the row is written. -/
theorem dbAddContact_written
    (P : DbPrimitives) (noiseKey : Key) (h : Written call onion name db)
    (hkey : db.dbKey = some key) :
    dbAddContact P call onion name noiseKey db =
      (.ok (), db.withContact (contactRow P call onion name noiseKey key)) := by
  obtain ⟨⟨-, honion, hname, hbox, hhash, hprep⟩, hbind, hstep⟩ := h
  rw [dbAddContact_eq hkey honion hname, if_pos hbox, if_pos hhash, if_pos hprep, if_pos hbind,
    if_pos hstep]

/-- Otherwise nothing changes, and the result is `NOX_OK` exactly at a failed bind. -/
theorem dbAddContact_not_written
    (P : DbPrimitives) (noiseKey : Key) (h : ¬ Written call onion name db) :
    (dbAddContact P call onion name noiseKey db).2 = db ∧
      ((dbAddContact P call onion name noiseKey db).1 = .ok () ↔ BindFails call onion name db) := by
  cases hkey : db.dbKey with
  | none =>
      have hno : ¬ BindFails call onion name db := fun hb => hb.1.1 hkey
      unfold dbAddContact
      rw [hkey]
      exact ⟨rfl, by simp [hno]⟩
  | some key =>
      have hopen : db.dbKey ≠ none := by
        rw [hkey]
        exact Option.some_ne_none key
      by_cases hsize : onion.length = noxOnionLen ∧ name.length ≤ noxContactNameLen
      · rw [dbAddContact_eq hkey hsize.1 hsize.2]
        unfold Written BindFails Prepared at *
        cases hbox : call.box <;> cases hhash : call.hash <;> cases hprep : call.prepare <;>
          cases hbind : call.bind <;> cases hstep : call.step <;>
          simp_all
      · have hno : ¬ BindFails call onion name db :=
          fun hb => hsize ⟨hb.1.2.1, hb.1.2.2.1⟩
        have hbad : onion.length ≠ noxOnionLen ∨ name.length > noxContactNameLen := by
          omega
        unfold dbAddContact
        rw [hkey]
        dsimp only
        rw [if_pos hbad]
        exact ⟨rfl, by simp [hno]⟩

end Ways

section Lookup

variable {P : DbPrimitives} {call : DbCall} {onion name : Bytes} {noiseKey key : Key}
  {db : DbState}

/-- The row that has been written is the one that is found. -/
theorem find_replaceContact
    (row : ContactRow) (contacts : List ContactRow) :
    (replaceContact row contacts).find? (·.onionHash == row.onionHash) = some row := by
  have hnone : (contacts.filter (fun r => r.onionHash ≠ row.onionHash)).find?
      (·.onionHash == row.onionHash) = none := by
    rw [List.find?_eq_none]
    intro r hr
    have hne := (List.mem_filter.mp hr).2
    simpa using hne
  unfold replaceContact
  rw [List.find?_append, hnone]
  simp

/-- Rows with another label stay. -/
theorem filter_replaceContact
    {row : ContactRow} {label : Bytes} (h : row.onionHash ≠ label) (contacts : List ContactRow) :
    (replaceContact row contacts).filter (fun r => r.onionHash = label) =
      contacts.filter (fun r => r.onionHash = label) := by
  unfold replaceContact
  rw [List.filter_append, List.filter_filter]
  have hrow : [row].filter (fun r => r.onionHash = label) = [] := by
    simp [h]
  rw [hrow, List.append_nil]
  apply List.filter_congr
  intro r _
  by_cases hr : r.onionHash = label
  · simp [hr, h.symm]
  · simp [hr]

theorem find_replaceContact_other
    {row : ContactRow} {label : Bytes} (h : row.onionHash ≠ label) (contacts : List ContactRow) :
    (replaceContact row contacts).find? (·.onionHash == label) =
      contacts.find? (·.onionHash == label) := by
  have hfilter := filter_replaceContact h contacts
  have hbeq : (fun r : ContactRow => r.onionHash == label) =
      fun r => decide (r.onionHash = label) := by
    funext r
    rw [Bool.eq_iff_iff, beq_iff_eq, decide_eq_true_iff]
  rw [hbeq, ← List.head?_filter, ← List.head?_filter, hfilter]

/-- The lookup with its library calls out of the way. -/
theorem storedContact_eq
    (hkey : db.dbKey = some key) (honion : onion.length = noxOnionLen) :
    storedContact P onion db =
      match db.contacts.find? (·.onionHash == (P.generichash key onion).toList) with
      | none => .error .db
      | some row =>
          match dbDecryptRow P key row.record contactPayloadSize with
          | .error err => .error err
          | .ok plain =>
              if plain.length ≠ contactPayloadSize then .error .db
              else .ok ((payloadName plain).take noxContactNameLen, payloadKey plain) := by
  unfold storedContact dbGetContact hashOnion
  rw [hkey]
  simp only [honion, lookupCall]
  rfl

theorem dbDecryptRow_contactRow
    (hopen : P.Opens) :
    dbDecryptRow P key (contactRow P call onion name noiseKey key).record contactPayloadSize =
      .ok (contactPayload onion name noiseKey) := by
  have hcipher : (P.secretbox key call.nonce (contactPayload onion name noiseKey)).length =
      contactPayloadSize + secretboxMacBytes := by
    rw [P.secretbox_length, contactPayload_length]
    rfl
  have hnonce : call.nonce.toList.length = noxNonceLen := List.Vector.toList_length _
  unfold dbDecryptRow contactRow decryptPayload
  dsimp only
  rw [hcipher, hnonce, Block.ofBytes_toList, hopen]
  rfl

/-- What has been written is read back. -/
theorem storedContact_written
    (call : DbCall) (noiseKey : Key) (hopen : P.Opens) (hzero : 0 ∉ name)
    (hkey : db.dbKey = some key) (honion : onion.length = noxOnionLen)
    (hname : name.length ≤ noxContactNameLen) :
    storedContact P onion (db.withContact (contactRow P call onion name noiseKey key)) =
      .ok (name, noiseKey) := by
  have hkey' : (db.withContact (contactRow P call onion name noiseKey key)).dbKey = some key := hkey
  rw [storedContact_eq hkey' honion]
  unfold DbState.withContact
  dsimp only
  rw [show (P.generichash key onion).toList =
    (contactRow P call onion name noiseKey key).onionHash from rfl, find_replaceContact]
  dsimp only
  rw [dbDecryptRow_contactRow hopen]
  dsimp only
  rw [contactPayload_length, if_neg (not_not_intro rfl), contactPayload_name onion hzero hname,
    contactPayload_key, List.take_of_length_le hname]

/-- Other addresses are found as before. -/
theorem storedContact_other
    {other : Bytes} {row : ContactRow} (hkey : db.dbKey = some key)
    (hlabel : row.onionHash ≠ (P.generichash key other).toList) :
    storedContact P other (db.withContact row) = storedContact P other db := by
  have hkey' : (db.withContact row).dbKey = some key := hkey
  by_cases hother : other.length = noxOnionLen
  · rw [storedContact_eq hkey' hother, storedContact_eq hkey hother]
    unfold DbState.withContact
    dsimp only
    rw [find_replaceContact_other hlabel]
  · have hbad : ∀ d : DbState, d.dbKey = some key →
        storedContact P other d = .error .crypto := by
      intro d hd
      unfold storedContact dbGetContact hashOnion
      rw [hd]
      dsimp only
      rw [if_neg (Nat.succ_ne_zero _), if_pos hother]
    rw [hbad _ hkey', hbad _ hkey]

end Lookup

section Truth

variable {P : DbPrimitives} {call : DbCall} {onion name : Bytes} {noiseKey : Key} {db : DbState}

/-- A call that writes the row tells the truth. -/
theorem truthful_written
    (hopen : P.Opens) (hzero : 0 ∉ name) (h : Written call onion name db) :
    Truthful P call onion name noiseKey db := by
  obtain ⟨key, hkey⟩ := Option.ne_none_iff_exists'.mp h.1.1
  have hres := dbAddContact_written P noiseKey h hkey
  have hstored := storedContact_written call noiseKey hopen hzero hkey
    h.1.2.1 h.1.2.2.1
  refine ⟨?_, ?_, ?_⟩
  · rw [hres]
    exact ⟨fun _ => hstored, fun _ => rfl⟩
  · intro hne
    rw [hres] at hne
    exact absurd rfl hne
  · intro key' other hkey' hother hcoll
    obtain rfl : key = key' := Option.some.inj (hkey.symm.trans hkey')
    have hlabel : (contactRow P call onion name noiseKey key).onionHash ≠
        (P.generichash key other).toList := by
      intro heq
      have hhash : P.generichash key onion = P.generichash key other := Subtype.ext heq
      exact hother (hcoll onion (by simp) other (by simp) hhash).symm
    rw [hres]
    exact ⟨filter_replaceContact hlabel db.contacts, storedContact_other hkey hlabel⟩

/-- A call that does not write the row says whether a bind has failed. -/
theorem truthful_not_written
    (h : ¬ Written call onion name db) :
    Truthful P call onion name noiseKey db ↔
      (BindFails call onion name db ↔ storedContact P onion db = .ok (name, noiseKey)) := by
  obtain ⟨hdb, hres⟩ := dbAddContact_not_written P noiseKey h
  constructor
  · intro htrue
    have hresult := htrue.result
    rw [hdb, hres] at hresult
    exact hresult
  · intro hiff
    refine ⟨?_, fun _ => hdb, ?_⟩
    · rw [hdb, hres]
      exact hiff
    · intro key other _ _ _
      rw [hdb]
      exact ⟨rfl, rfl⟩

/--
`db_add_contact` tells the truth if every library call succeeds, and otherwise exactly if a bind
fails while the table already holds this very contact or something else fails while it does not.
-/
theorem add_contact_truthful_iff
    (P : DbPrimitives) (hopen : P.Opens) (call : DbCall) (onion name : CString) (noiseKey : Key)
    (db : DbState) :
    Truthful P call onion.1 name.1 noiseKey db ↔
      Written call onion.1 name.1 db ∨
        (BindFails call onion.1 name.1 db ↔
          storedContact P onion.1 db = .ok (name.1, noiseKey)) := by
  by_cases h : Written call onion.1 name.1 db
  · exact ⟨fun _ => Or.inl h, fun _ => truthful_written hopen name.2 h⟩
  · rw [truthful_not_written h]
    exact ⟨Or.inr, fun hor => hor.resolve_left h⟩

/-- Adding 'b' to the empty table. -/
theorem add_contact_truthful_first :
    Truthful sampleDbPrimitives (sampleDbCall 1) (sampleAddress 0x62 (by decide)).1 [0x62]
      (samplePair 7).pub sampleDb :=
  (add_contact_truthful_iff sampleDbPrimitives sampleDbPrimitives_opens (sampleDbCall 1)
    (sampleAddress 0x62 (by decide)) ⟨[0x62], by decide⟩ (samplePair 7).pub sampleDb).mpr
    (Or.inl (by decide +kernel))

/-- A bind of the statement fails. -/
def failedBind : DbCall :=
  { sampleDbCall 1 with bind := false }

/-- `NOX_OK` for a contact that is in no row. -/
theorem add_contact_lies :
    (dbAddContact sampleDbPrimitives failedBind (samplePeer 0x62) [0x62] (samplePair 7).pub
        sampleDb).1 = .ok () ∧
      (dbAddContact sampleDbPrimitives failedBind (samplePeer 0x62) [0x62] (samplePair 7).pub
        sampleDb).2.contacts = [] ∧
      ¬ Truthful sampleDbPrimitives failedBind (samplePeer 0x62) [0x62] (samplePair 7).pub
        sampleDb := by
  refine ⟨by decide +kernel, by decide +kernel, ?_⟩
  intro htrue
  have hstored := htrue.result.mp (by decide +kernel)
  revert hstored
  decide +kernel

end Truth

end Db
end Noxtor
