import Noxtor.Db.QueueHistory

/-!
# Two first runs at once

`main` of an instance that finds no `identity.key`: `crypto_load_or_create_salt`, the derivation
of the unlock key, `crypto_generate_identity` and `crypto_load_identity`.  Each of them is a
sequence of calls to the file system, and the calls of two instances that share the directory may
come in any order.

A file is written under a temporary name, which contains the process id, and then renamed, so
nobody sees half a file.  But the salt is looked for several calls before it is renamed: if both
instances have looked before either has renamed, both make a salt, and the second rename replaces
the first one.
-/

namespace Noxtor
namespace Boot

open ByteString Db

/-- One of the two instances. -/
abbrev Proc := Fin 2

/-- What a file is for. -/
inductive FileKind where
  | salt
  | identity
deriving DecidableEq

/-- A file, by the `openat` that has created it. -/
structure Inode where
  creator : Proc
  kind : FileKind
deriving DecidableEq

/-- The names in the config directory. -/
inductive Name where
  | final (kind : FileKind)
  | tmp (file : Inode)
deriving DecidableEq

/-- The directory and the contents of the files. -/
structure Fs where
  dir : Name → Option Inode
  data : Inode → Bytes

namespace Fs

/-- The empty directory. -/
def empty : Fs :=
  { dir := fun _ => none, data := fun _ => [] }

/-- `openat` with `O_CREAT | O_EXCL` under the temporary name. -/
def create (f : Inode) (fs : Fs) : Fs :=
  { dir := Function.update fs.dir (.tmp f) (some f), data := Function.update fs.data f [] }

/-- `write_exact`. -/
def append (f : Inode) (bytes : Bytes) (fs : Fs) : Fs :=
  { fs with data := Function.update fs.data f (fs.data f ++ bytes) }

/-- `renameat` to the final name. -/
def rename (f : Inode) (fs : Fs) : Fs :=
  { fs with
    dir := Function.update (Function.update fs.dir (.final f.kind) (fs.dir (.tmp f))) (.tmp f) none }

end Fs

/-- The next call of an instance, or how it has ended. -/
inductive Pc where
  | openSalt
  | statSalt (file : Inode)
  | readSalt (file : Inode)
  | closeSalt
  | create (kind : FileKind)
  | write (kind : FileKind)
  | writeCipher
  | fsync (kind : FileKind)
  | close (kind : FileKind)
  | rename (kind : FileKind)
  | fsyncDir (kind : FileKind)
  | openIdentity
  | statIdentity (file : Inode)
  | readIdentity (file : Inode)
  | done
  | saltError
  | identityError (err : NoxErr)
deriving DecidableEq

/-- An instance: the result of its first `openat`, its salt and its secret key. -/
structure Instance where
  pc : Pc
  saltFd : Option (Option Inode)
  salt : Option Bytes
  secret : Option Bytes

/-- The PIN, the derivation of the unlock key, and what each instance draws. -/
structure Draws where
  pin : Bytes
  unlock : Bytes → Bytes → Key
  salt : Proc → Block 16
  secret : Proc → Block 64
  nonce : Proc → Block 24

/-- Both instances and the directory. -/
structure World where
  inst : Proc → Instance
  fs : Fs

section Model

variable (P : DbPrimitives) (R : Draws)

/-- The unlock key of an instance. -/
def unlockKey (p : Instance) : Key :=
  R.unlock R.pin (p.salt.getD [])

/-- The ciphertext in an identity file. -/
def sealedIdentity (i : Proc) (p : Instance) : Bytes :=
  P.secretbox (unlockKey R p) (R.nonce i) (R.secret i).toList

/-- `crypto_secretbox_open_easy` on the contents of an identity file. -/
def openIdentityFile (key : Key) (content : Bytes) : Option Bytes :=
  P.secretboxOpen key (Block.ofBytes 24 content) (content.drop 24)

/-- One call of instance `i`; every call succeeds. -/
def instanceStep (i : Proc) (p : Instance) (fs : Fs) : Instance × Fs :=
  match p.pc with
  -- crypto_load_or_create_salt
  | .openSalt =>
      match fs.dir (.final .salt) with
      | some f => ({ p with pc := .statSalt f, saltFd := some (some f) }, fs)
      | none =>
          ({ p with pc := .create .salt, saltFd := some none, salt := some (R.salt i).toList }, fs)
  | .statSalt f =>
      ({ p with pc := if (fs.data f).length ≠ 16 then .saltError else .readSalt f }, fs)
  | .readSalt f => ({ p with pc := .closeSalt, salt := some ((fs.data f).take 16) }, fs)
  | .closeSalt => ({ p with pc := .create .identity }, fs)
  | .create k => ({ p with pc := .write k }, fs.create ⟨i, k⟩)
  | .write .salt => ({ p with pc := .fsync .salt }, fs.append ⟨i, .salt⟩ (p.salt.getD []))
  -- crypto_generate_identity
  | .write .identity => ({ p with pc := .writeCipher }, fs.append ⟨i, .identity⟩ (R.nonce i).toList)
  | .writeCipher =>
      ({ p with pc := .fsync .identity }, fs.append ⟨i, .identity⟩ (sealedIdentity P R i p))
  | .fsync k => ({ p with pc := .close k }, fs)
  | .close k => ({ p with pc := .rename k }, fs)
  | .rename k => ({ p with pc := .fsyncDir k }, fs.rename ⟨i, k⟩)
  | .fsyncDir .salt => ({ p with pc := .create .identity }, fs)
  | .fsyncDir .identity => ({ p with pc := .openIdentity }, fs)
  -- crypto_load_identity
  | .openIdentity =>
      match fs.dir (.final .identity) with
      | none => ({ p with pc := .identityError .io }, fs)
      | some f => ({ p with pc := .statIdentity f }, fs)
  | .statIdentity f =>
      ({ p with pc := if (fs.data f).length ≠ 104 then .identityError .io else .readIdentity f }, fs)
  | .readIdentity f =>
      match openIdentityFile P (unlockKey R p) (fs.data f) with
      | none => ({ p with pc := .identityError .auth }, fs)
      | some secret => ({ p with pc := .done, secret := some secret }, fs)
  | .done => (p, fs)
  | .saltError => (p, fs)
  | .identityError _ => (p, fs)

/-- One call of one instance. -/
def worldStep (w : World) (i : Proc) : World :=
  { inst := Function.update w.inst i (instanceStep P R i (w.inst i) w.fs).1
    fs := (instanceStep P R i (w.inst i) w.fs).2 }

/-- Both instances at the start, in an empty directory. -/
def worldStart : World :=
  { inst := fun _ => { pc := .openSalt, saltFd := none, salt := none, secret := none }
    fs := .empty }

/-- An interleaving: which instance makes the next call. -/
def worldRun (schedule : List Proc) : World :=
  schedule.foldl (worldStep P R) worldStart

end Model

namespace Pc

/-- The instance has ended. -/
def finished : Pc → Bool
  | done => true
  | saltError => true
  | identityError _ => true
  | _ => false

end Pc

/-- Both instances have ended. -/
def World.Finished (w : World) : Prop :=
  ∀ i, (w.inst i).pc.finished = true

/-- Both instances hold the stored salt, and the stored identity opens under its unlock key. -/
def Consistent (P : DbPrimitives) (R : Draws) (w : World) : Prop :=
  ∃ f g salt secret, w.fs.dir (.final .salt) = some f ∧ w.fs.data f = salt ∧
    (∀ i, (w.inst i).salt = some salt) ∧ w.fs.dir (.final .identity) = some g ∧
    openIdentityFile P (R.unlock R.pin salt) (w.fs.data g) = some secret

/-- At some moment both instances have looked for the salt and neither has renamed its own, which
would be its sixth call. -/
def Overlap (schedule : List Proc) : Prop :=
  ∃ before, before <+: schedule ∧ ∀ i, 0 < before.count i ∧ before.count i < 6

instance (schedule : List Proc) : Decidable (Overlap schedule) :=
  decidable_of_iff (∃ before ∈ schedule.inits, ∀ i, 0 < before.count i ∧ before.count i < 6)
    (by simp only [List.mem_inits, Overlap])

namespace Pc

/-- How many calls an instance has made that is about to make and rename its salt. -/
def beforeRename : Pc → Option Nat
  | create .salt => some 1
  | write .salt => some 2
  | fsync .salt => some 3
  | close .salt => some 4
  | rename .salt => some 5
  | _ => none

/-- The instance is busy with a salt that it has found. -/
def findsSalt : Pc → Bool
  | statSalt _ => true
  | readSalt _ => true
  | closeSalt => true
  | _ => false

/-- The instance has written what it has to write into its salt file, if it makes one. -/
def saltWritten : Pc → Bool
  | openSalt => false
  | create .salt => false
  | write .salt => false
  | _ => true

/-- How much of the identity file has been written. -/
def identityStage : Pc → Nat
  | writeCipher => 1
  | fsync .identity => 2
  | close .identity => 2
  | rename .identity => 2
  | fsyncDir .identity => 2
  | openIdentity => 2
  | statIdentity _ => 2
  | readIdentity _ => 2
  | done => 2
  | identityError _ => 2
  | _ => 0

/-- The identity file has been renamed. -/
def identityRenamed : Pc → Bool
  | fsyncDir .identity => true
  | openIdentity => true
  | statIdentity _ => true
  | readIdentity _ => true
  | done => true
  | identityError _ => true
  | _ => false

/-- The temporary name of a file exists. -/
def publishes (kind : FileKind) : Pc → Bool
  | write k => k = kind
  | writeCipher => .identity = kind
  | fsync k => k = kind
  | close k => k = kind
  | rename k => k = kind
  | _ => false

/-- How many calls an instance may still make. -/
def remaining : Pc → Nat
  | openSalt => 17
  | statSalt _ => 13
  | readSalt _ => 12
  | closeSalt => 11
  | create .salt => 16
  | write .salt => 15
  | fsync .salt => 14
  | close .salt => 13
  | rename .salt => 12
  | fsyncDir .salt => 11
  | create .identity => 10
  | write .identity => 9
  | writeCipher => 8
  | fsync .identity => 7
  | close .identity => 6
  | rename .identity => 5
  | fsyncDir .identity => 4
  | openIdentity => 3
  | statIdentity _ => 2
  | readIdentity _ => 1
  | done => 0
  | saltError => 0
  | identityError _ => 0

end Pc

/-- The instance makes a salt of its own. -/
def Instance.Creates (p : Instance) : Prop :=
  p.saltFd = some none

/-- The instance has made a salt and renamed it. -/
def Instance.Renamed (p : Instance) : Prop :=
  p.saltFd = some none ∧ p.pc.beforeRename = none

section Contents

variable (P : DbPrimitives) (R : Draws)

/-- The contents of the salt file of an instance. -/
def saltData (i : Proc) (p : Instance) : Bytes :=
  if p.saltFd = some none ∧ p.pc.saltWritten = true then (R.salt i).toList else []

/-- The contents of the identity file of an instance. -/
def identityData (i : Proc) (p : Instance) : Bytes :=
  match p.pc.identityStage with
  | 0 => []
  | 1 => (R.nonce i).toList
  | _ => (R.nonce i).toList ++ sealedIdentity P R i p

/-- What holds of an instance that has made `n` calls. -/
structure InstanceInv (w : World) (i : Proc) (n : Nat) : Prop where
  unopened : (w.inst i).saltFd = none → (w.inst i).pc = .openSalt ∧ n = 0
  opened : (w.inst i).saltFd ≠ none → (w.inst i).pc ≠ .openSalt ∧ 0 < n
  creates : (w.inst i).saltFd = some none → (w.inst i).salt = some (R.salt i).toList ∧
    (w.inst i).pc.findsSalt = false ∧ (w.inst i).pc ≠ .saltError ∧
    (match (w.inst i).pc.beforeRename with
      | some m => n = m
      | none => 6 ≤ n)
  finds : ∀ f, (w.inst i).saltFd = some (some f) → (∃ j, f = ⟨j, .salt⟩ ∧ (w.inst j).Renamed ∧
      ((w.inst i).pc = .statSalt f ∨ (w.inst i).pc = .readSalt f ∨
        (w.inst i).salt = some (R.salt j).toList ∧ ∀ g, (w.inst i).pc ≠ .statSalt g ∧
          (w.inst i).pc ≠ .readSalt g)) ∧
    (w.inst i).pc.beforeRename = none ∧ (w.inst i).pc ≠ .fsyncDir .salt ∧
    (w.inst i).pc ≠ .saltError

/-- What holds of both instances and the directory when instance `i` has made `n i` calls. -/
structure WorldInv (w : World) (n : Proc → Nat) : Prop where
  salts : ∀ i, w.fs.data ⟨i, .salt⟩ = saltData R i (w.inst i)
  identities : ∀ i, w.fs.data ⟨i, .identity⟩ = identityData P R i (w.inst i)
  tmps : ∀ i k, (w.inst i).pc.publishes k = true → w.fs.dir (.tmp ⟨i, k⟩) = some ⟨i, k⟩
  salt : ∀ f, w.fs.dir (.final .salt) = some f → ∃ j, f = ⟨j, .salt⟩ ∧ (w.inst j).Renamed
  noSalt : w.fs.dir (.final .salt) = none → ∀ j, ¬ (w.inst j).Renamed
  identity : ∀ f, w.fs.dir (.final .identity) = some f →
    ∃ j, f = ⟨j, .identity⟩ ∧ (w.inst j).pc.identityRenamed = true
  noIdentity : w.fs.dir (.final .identity) = none →
    ∀ j, (w.inst j).pc.identityRenamed = false
  instances : ∀ i, InstanceInv R w i (n i)

end Contents

/-- What a call does. -/
inductive Call (P : DbPrimitives) (R : Draws) (i : Proc) :
    Instance → Fs → Instance → Fs → Prop where
  | saltFound {f fd salt secret fs} (found : fs.dir (.final .salt) = some f) :
      Call P R i ⟨.openSalt, fd, salt, secret⟩ fs ⟨.statSalt f, some (some f), salt, secret⟩ fs
  | saltMissing {fd salt secret fs} (missing : fs.dir (.final .salt) = none) :
      Call P R i ⟨.openSalt, fd, salt, secret⟩ fs
        ⟨.create .salt, some none, some (R.salt i).toList, secret⟩ fs
  | saltRefused {f fd salt secret fs} (length : (fs.data f).length ≠ 16) :
      Call P R i ⟨.statSalt f, fd, salt, secret⟩ fs ⟨.saltError, fd, salt, secret⟩ fs
  | saltMeasured {f fd salt secret fs} (length : (fs.data f).length = 16) :
      Call P R i ⟨.statSalt f, fd, salt, secret⟩ fs ⟨.readSalt f, fd, salt, secret⟩ fs
  | saltRead {f fd salt secret fs} :
      Call P R i ⟨.readSalt f, fd, salt, secret⟩ fs
        ⟨.closeSalt, fd, some ((fs.data f).take 16), secret⟩ fs
  | saltClosed {fd salt secret fs} :
      Call P R i ⟨.closeSalt, fd, salt, secret⟩ fs ⟨.create .identity, fd, salt, secret⟩ fs
  | create {k fd salt secret fs} :
      Call P R i ⟨.create k, fd, salt, secret⟩ fs ⟨.write k, fd, salt, secret⟩ (fs.create ⟨i, k⟩)
  | writeSalt {fd salt secret fs} :
      Call P R i ⟨.write .salt, fd, salt, secret⟩ fs ⟨.fsync .salt, fd, salt, secret⟩
        (fs.append ⟨i, .salt⟩ (salt.getD []))
  | writeNonce {fd salt secret fs} :
      Call P R i ⟨.write .identity, fd, salt, secret⟩ fs ⟨.writeCipher, fd, salt, secret⟩
        (fs.append ⟨i, .identity⟩ (R.nonce i).toList)
  | writeCipher {fd salt secret fs} :
      Call P R i ⟨.writeCipher, fd, salt, secret⟩ fs ⟨.fsync .identity, fd, salt, secret⟩
        (fs.append ⟨i, .identity⟩ (sealedIdentity P R i ⟨.writeCipher, fd, salt, secret⟩))
  | fsync {k fd salt secret fs} :
      Call P R i ⟨.fsync k, fd, salt, secret⟩ fs ⟨.close k, fd, salt, secret⟩ fs
  | close {k fd salt secret fs} :
      Call P R i ⟨.close k, fd, salt, secret⟩ fs ⟨.rename k, fd, salt, secret⟩ fs
  | rename {k fd salt secret fs} :
      Call P R i ⟨.rename k, fd, salt, secret⟩ fs ⟨.fsyncDir k, fd, salt, secret⟩
        (fs.rename ⟨i, k⟩)
  | saltSynced {fd salt secret fs} :
      Call P R i ⟨.fsyncDir .salt, fd, salt, secret⟩ fs ⟨.create .identity, fd, salt, secret⟩ fs
  | identitySynced {fd salt secret fs} :
      Call P R i ⟨.fsyncDir .identity, fd, salt, secret⟩ fs ⟨.openIdentity, fd, salt, secret⟩ fs
  | identityMissing {fd salt secret fs} (missing : fs.dir (.final .identity) = none) :
      Call P R i ⟨.openIdentity, fd, salt, secret⟩ fs ⟨.identityError .io, fd, salt, secret⟩ fs
  | identityFound {f fd salt secret fs} (found : fs.dir (.final .identity) = some f) :
      Call P R i ⟨.openIdentity, fd, salt, secret⟩ fs ⟨.statIdentity f, fd, salt, secret⟩ fs
  | identityRefused {f fd salt secret fs} (length : (fs.data f).length ≠ 104) :
      Call P R i ⟨.statIdentity f, fd, salt, secret⟩ fs ⟨.identityError .io, fd, salt, secret⟩ fs
  | identityMeasured {f fd salt secret fs} (length : (fs.data f).length = 104) :
      Call P R i ⟨.statIdentity f, fd, salt, secret⟩ fs ⟨.readIdentity f, fd, salt, secret⟩ fs
  | wrongKey {f fd salt secret fs}
      (shut : openIdentityFile P (R.unlock R.pin (salt.getD [])) (fs.data f) = none) :
      Call P R i ⟨.readIdentity f, fd, salt, secret⟩ fs ⟨.identityError .auth, fd, salt, secret⟩ fs
  | identityOpened {f fd salt secret fs plain}
      (opens : openIdentityFile P (R.unlock R.pin (salt.getD [])) (fs.data f) = some plain) :
      Call P R i ⟨.readIdentity f, fd, salt, secret⟩ fs ⟨.done, fd, salt, some plain⟩ fs
  | ended {p fs} (finished : p.pc.finished = true) : Call P R i p fs p fs

theorem Pc.finished_iff {pc : Pc} : pc.finished = true ↔ pc.remaining = 0 := by
  cases pc with
  | create k => cases k <;> simp [Pc.finished, Pc.remaining]
  | write k => cases k <;> simp [Pc.finished, Pc.remaining]
  | fsync k => cases k <;> simp [Pc.finished, Pc.remaining]
  | close k => cases k <;> simp [Pc.finished, Pc.remaining]
  | rename k => cases k <;> simp [Pc.finished, Pc.remaining]
  | fsyncDir k => cases k <;> simp [Pc.finished, Pc.remaining]
  | _ => simp [Pc.finished, Pc.remaining]

theorem Pc.beforeRename_of_finished {pc : Pc} (h : pc.finished = true) : pc.beforeRename = none := by
  cases pc <;> simp_all [Pc.finished, Pc.beforeRename]

theorem Instance.Creates.saltFd_ne {p : Instance} (h : p.Creates) : p.saltFd ≠ none := by
  rw [h]
  exact Option.some_ne_none _

section Calls

variable {P : DbPrimitives} {R : Draws} {i j : Proc} {p p' : Instance} {fs fs' : Fs}

theorem instanceStep_call :
    Call P R i p fs (instanceStep P R i p fs).1 (instanceStep P R i p fs).2 := by
  obtain ⟨pc, fd, salt, secret⟩ := p
  cases pc with
  | openSalt =>
    dsimp only [instanceStep]
    split
    · exact .saltFound (by assumption)
    · exact .saltMissing (by assumption)
  | statSalt f =>
    dsimp only [instanceStep]
    split_ifs with hlen
    · exact .saltRefused hlen
    · exact .saltMeasured (not_not.mp hlen)
  | readSalt f => exact .saltRead
  | closeSalt => exact .saltClosed
  | create k => exact .create
  | write k =>
    cases k with
    | salt => exact .writeSalt
    | identity => exact .writeNonce
  | writeCipher => exact .writeCipher
  | fsync k => exact .fsync
  | close k => exact .close
  | rename k => exact .rename
  | fsyncDir k =>
    cases k with
    | salt => exact .saltSynced
    | identity => exact .identitySynced
  | openIdentity =>
    dsimp only [instanceStep]
    split
    · exact .identityMissing (by assumption)
    · exact .identityFound (by assumption)
  | statIdentity f =>
    dsimp only [instanceStep]
    split_ifs with hlen
    · exact .identityRefused hlen
    · exact .identityMeasured (not_not.mp hlen)
  | readIdentity f =>
    dsimp only [instanceStep]
    split
    · exact .wrongKey (by assumption)
    · exact .identityOpened (by assumption)
  | done => exact .ended rfl
  | saltError => exact .ended rfl
  | identityError e => exact .ended rfl

namespace Call

/-- A call changes only the files of its own instance. -/
theorem data_of_ne (h : Call P R i p fs p' fs') (hj : j ≠ i) (k : FileKind) :
    fs'.data ⟨j, k⟩ = fs.data ⟨j, k⟩ := by
  cases h <;> simp [Fs.create, Fs.append, Fs.rename, hj]

/-- A call changes only the temporary names of its own instance. -/
theorem tmp_of_ne (h : Call P R i p fs p' fs') (hj : j ≠ i) (k : FileKind) :
    fs'.dir (.tmp ⟨j, k⟩) = fs.dir (.tmp ⟨j, k⟩) := by
  cases h <;> simp [Fs.create, Fs.append, Fs.rename, Function.update, hj]

/-- Only a rename changes a final name. -/
theorem final (h : Call P R i p fs p' fs') (k : FileKind) :
    fs'.dir (.final k) = if p.pc = .rename k then fs.dir (.tmp ⟨i, k⟩) else fs.dir (.final k) := by
  cases h with
  | @rename kind =>
    by_cases hk : k = kind
    · simp [Fs.rename, hk, Function.update]
    · simp [Fs.rename, hk, Function.update, Ne.symm hk]
  | ended finished =>
    rw [if_neg]
    intro hpc
    simp [hpc, Pc.finished] at finished
  | _ => simp [Fs.create, Fs.append, Function.update]

theorem saltFd (h : Call P R i p fs p' fs') :
    p'.saltFd = if p.pc = .openSalt then some (fs.dir (.final .salt)) else p.saltFd := by
  cases h with
  | ended finished =>
    rw [if_neg]
    intro hpc
    simp [hpc, Pc.finished] at finished
  | _ => simp_all

theorem pc_ne_openSalt (h : Call P R i p fs p' fs') : p'.pc ≠ .openSalt := by
  cases h with
  | ended finished =>
    intro hpc
    simp [hpc, Pc.finished] at finished
  | _ => simp

theorem identityRenamed (h : Call P R i p fs p' fs') :
    p'.pc.identityRenamed = true ↔ p.pc.identityRenamed = true ∨ p.pc = .rename .identity := by
  cases h with
  | @create k => cases k <;> simp [Pc.identityRenamed]
  | @rename k => cases k <;> simp [Pc.identityRenamed]
  | ended finished =>
    constructor
    · exact Or.inl
    · rintro (hr | hpc)
      · exact hr
      · simp [hpc, Pc.finished] at finished
  | _ => simp [Pc.identityRenamed]

theorem own_salt (h : Call P R i p fs p' fs') (hdata : fs.data ⟨i, .salt⟩ = saltData R i p)
    (hown : p.pc.beforeRename ≠ none → p.saltFd = some none)
    (hsalt : p.saltFd = some none → p.salt = some (R.salt i).toList)
    (hopen : p.pc = .openSalt → p.saltFd = none) :
    fs'.data ⟨i, .salt⟩ = saltData R i p' := by
  rw [saltData] at hdata ⊢
  cases h with
  | @create k =>
    cases k <;> simp_all [Fs.create, Pc.saltWritten, Pc.beforeRename]
  | _ => simp_all [Fs.append, Fs.rename, Pc.saltWritten, Pc.beforeRename]

theorem own_identity (h : Call P R i p fs p' fs')
    (hdata : fs.data ⟨i, .identity⟩ = identityData P R i p) :
    fs'.data ⟨i, .identity⟩ = identityData P R i p' := by
  rw [identityData] at hdata ⊢
  cases h with
  | @create k => cases k <;> simp_all [Fs.create, Pc.identityStage]
  | @fsync k => cases k <;> simp_all [Pc.identityStage, sealedIdentity, unlockKey]
  | @close k => cases k <;> simp_all [Pc.identityStage, sealedIdentity, unlockKey]
  | @rename k => cases k <;> simp_all [Fs.rename, Pc.identityStage, sealedIdentity, unlockKey]
  | _ => simp_all [Fs.append, Pc.identityStage, sealedIdentity, unlockKey]

theorem own_tmp (h : Call P R i p fs p' fs') {k : FileKind}
    (htmp : p.pc.publishes k = true → fs.dir (.tmp ⟨i, k⟩) = some ⟨i, k⟩)
    (hpub : p'.pc.publishes k = true) : fs'.dir (.tmp ⟨i, k⟩) = some ⟨i, k⟩ := by
  cases h <;> simp_all [Fs.create, Fs.append, Pc.publishes, Function.update]

theorem own_creates {n : Nat} (h : Call P R i p fs p' fs') (hfd : p.saltFd = some none)
    (hsalt : p.salt = some (R.salt i).toList) (hfinds : p.pc.findsSalt = false)
    (herr : p.pc ≠ .saltError) (hopen : p.pc ≠ .openSalt)
    (hn : match p.pc.beforeRename with
      | some m => n = m
      | none => 6 ≤ n) :
    p'.salt = some (R.salt i).toList ∧ p'.pc.findsSalt = false ∧ p'.pc ≠ .saltError ∧
      (match p'.pc.beforeRename with
        | some m => n + 1 = m
        | none => 6 ≤ n + 1) := by
  cases h with
  | @create k => cases k <;> simp_all [Pc.findsSalt, Pc.beforeRename]; omega
  | @fsync k => cases k <;> simp_all [Pc.findsSalt, Pc.beforeRename]; omega
  | @close k => cases k <;> simp_all [Pc.findsSalt, Pc.beforeRename]; omega
  | @rename k => cases k <;> simp_all [Pc.findsSalt, Pc.beforeRename]; omega
  | ended finished =>
    refine ⟨hsalt, hfinds, herr, ?_⟩
    simp only [Pc.beforeRename_of_finished finished] at hn ⊢
    omega
  | _ => simp_all [Pc.findsSalt, Pc.beforeRename] <;> omega

theorem own_finds {f : Inode} {salt : Block 16} (h : Call P R i p fs p' fs')
    (hopen : p.pc ≠ .openSalt) (hdata : fs.data f = salt.toList)
    (hsalt : p.pc = .statSalt f ∨ p.pc = .readSalt f ∨
      p.salt = some salt.toList ∧ ∀ g, p.pc ≠ .statSalt g ∧ p.pc ≠ .readSalt g)
    (hrest : p.pc.beforeRename = none ∧ p.pc ≠ .fsyncDir .salt ∧ p.pc ≠ .saltError) :
    (p'.pc = .statSalt f ∨ p'.pc = .readSalt f ∨
      p'.salt = some salt.toList ∧ ∀ g, p'.pc ≠ .statSalt g ∧ p'.pc ≠ .readSalt g) ∧
    p'.pc.beforeRename = none ∧ p'.pc ≠ .fsyncDir .salt ∧ p'.pc ≠ .saltError := by
  have hlen : salt.toList.length = 16 := salt.toList_length
  cases h with
  | saltRefused length => simp_all
  | saltMeasured length => simp_all [Pc.beforeRename]
  | saltRead => simp_all [Pc.beforeRename]
  | @create k => cases k <;> simp_all [Pc.beforeRename]
  | @fsync k => cases k <;> simp_all [Pc.beforeRename]
  | @close k => cases k <;> simp_all [Pc.beforeRename]
  | @rename k => cases k <;> simp_all [Pc.beforeRename]
  | ended finished => exact ⟨hsalt, hrest⟩
  | _ => simp_all [Pc.beforeRename]

/-- Nothing but the rename of a salt makes an instance one that has renamed its salt. -/
theorem renamed (h : Call P R i p fs p' fs') (hopen : p.pc = .openSalt → p.saltFd = none) :
    p'.Renamed ↔ p.Renamed ∨ p.pc = .rename .salt ∧ p.saltFd = some none := by
  unfold Instance.Renamed
  cases h with
  | @create k => cases k <;> simp [Pc.beforeRename]
  | @fsync k => cases k <;> simp [Pc.beforeRename]
  | @close k => cases k <;> simp [Pc.beforeRename]
  | @rename k => cases k <;> simp [Pc.beforeRename]
  | ended finished =>
    simp only [Pc.beforeRename_of_finished finished, and_true]
    constructor
    · exact Or.inl
    · rintro (hfd | ⟨-, hfd⟩)
      · exact hfd
      · exact hfd
  | _ => simp_all [Pc.beforeRename]

/-- A call brings an instance one call nearer to its end. -/
theorem remaining (h : Call P R i p fs p' fs') : p'.pc.remaining ≤ p.pc.remaining - 1 := by
  cases h with
  | @create k => cases k <;> simp [Pc.remaining]
  | @fsync k => cases k <;> simp [Pc.remaining]
  | @close k => cases k <;> simp [Pc.remaining]
  | @rename k => cases k <;> simp [Pc.remaining]
  | ended finished => simp [Pc.finished_iff.mp finished]
  | _ => simp [Pc.remaining]

end Call
end Calls

section Runs

variable {P : DbPrimitives} {R : Draws} {w : World} {n : Proc → Nat} {i j : Proc}

@[simp] theorem worldStep_inst_self :
    ((worldStep P R w i).inst i) = (instanceStep P R i (w.inst i) w.fs).1 := by
  simp [worldStep]

theorem worldStep_inst_ne (h : j ≠ i) : ((worldStep P R w i).inst j) = w.inst j := by
  simp [worldStep, h]

theorem worldStep_call (P : DbPrimitives) (R : Draws) (w : World) (i : Proc) :
    Call P R i (w.inst i) w.fs ((worldStep P R w i).inst i) (worldStep P R w i).fs := by
  rw [worldStep_inst_self]
  exact instanceStep_call

namespace InstanceInv

theorem saltFd_of_openSalt (h : InstanceInv R w i m) (hpc : (w.inst i).pc = .openSalt) :
    (w.inst i).saltFd = none := by
  by_contra hfd
  exact (h.opened hfd).1 hpc

theorem creates_of_beforeRename (h : InstanceInv R w i m)
    (hpc : (w.inst i).pc.beforeRename ≠ none) : (w.inst i).saltFd = some none := by
  match hfd : (w.inst i).saltFd with
  | none =>
    rw [(h.unopened hfd).1] at hpc
    exact absurd rfl hpc
  | some none => rfl
  | some (some f) => exact absurd (h.finds f hfd).2.1 hpc

end InstanceInv

/-- The contents of a salt that has been renamed. -/
theorem WorldInv.renamed_data (h : WorldInv P R w n) (hr : (w.inst j).Renamed) :
    w.fs.data ⟨j, .salt⟩ = (R.salt j).toList := by
  rw [h.salts j, saltData, if_pos]
  refine ⟨hr.1, ?_⟩
  have hpc := ((h.instances j).opened (Instance.Creates.saltFd_ne hr.1)).1
  have hbefore := hr.2
  cases hpc' : (w.inst j).pc with
  | create k => cases k <;> simp_all [Pc.beforeRename, Pc.saltWritten]
  | write k => cases k <;> simp_all [Pc.beforeRename, Pc.saltWritten]
  | _ => simp_all [Pc.saltWritten]

theorem renamed_worldStep (h : WorldInv P R w n) :
    ((worldStep P R w i).inst j).Renamed ↔ (w.inst j).Renamed ∨
      j = i ∧ (w.inst i).pc = .rename .salt ∧ (w.inst i).saltFd = some none := by
  by_cases hj : j = i
  · subst hj
    rw [(worldStep_call P R w j).renamed (h.instances j).saltFd_of_openSalt]
    simp
  · rw [worldStep_inst_ne hj]
    simp [hj]

theorem worldInv_start : WorldInv P R worldStart (fun _ => 0) where
  salts := fun i => by simp [worldStart, saltData, Fs.empty]
  identities := fun i => by simp [worldStart, identityData, Fs.empty, Pc.identityStage]
  tmps := fun i k h => by simp [worldStart, Pc.publishes] at h
  salt := fun f h => by simp [worldStart, Fs.empty] at h
  noSalt := fun _ j => by simp [worldStart, Instance.Renamed]
  identity := fun f h => by simp [worldStart, Fs.empty] at h
  noIdentity := fun _ j => by simp [worldStart, Pc.identityRenamed]
  instances := fun i =>
    { unopened := fun _ => ⟨rfl, rfl⟩
      opened := fun h => absurd rfl h
      creates := fun h => by simp [worldStart] at h
      finds := fun f h => by simp [worldStart] at h }

/-- The instance that does not make the call. -/
theorem InstanceInv.worldStep_ne (h : WorldInv P R w n) (hj : j ≠ i) :
    InstanceInv R (worldStep P R w i) j (n j) := by
  have hinst : (worldStep P R w i).inst j = w.inst j := worldStep_inst_ne hj
  have hold := h.instances j
  constructor
  · rw [hinst]
    exact hold.unopened
  · rw [hinst]
    exact hold.opened
  · rw [hinst]
    exact hold.creates
  · intro f hfd
    rw [hinst] at hfd ⊢
    obtain ⟨⟨k, hf, hr, hsalt⟩, hrest⟩ := hold.finds f hfd
    exact ⟨⟨k, hf, (renamed_worldStep h).mpr (.inl hr), hsalt⟩, hrest⟩

/-- The instance that makes the call. -/
theorem InstanceInv.worldStep_self (h : WorldInv P R w n) :
    InstanceInv R (worldStep P R w i) i (n i + 1) := by
  have hcall := worldStep_call P R w i
  have hold := h.instances i
  have hfd := hcall.saltFd
  constructor
  · intro hnone
    rw [hfd] at hnone
    split_ifs at hnone with hpc
    exact absurd (hold.unopened hnone).1 hpc
  · exact fun _ => ⟨hcall.pc_ne_openSalt, Nat.succ_pos _⟩
  · intro hnone
    rw [hfd] at hnone
    split_ifs at hnone with hpc
    · have hn := (hold.unopened (hold.saltFd_of_openSalt hpc)).2
      rw [worldStep_inst_self]
      simp [instanceStep, hpc, Option.some.inj hnone, Pc.findsSalt, Pc.beforeRename, hn]
    · obtain ⟨hsalt, hfinds, herr, hn⟩ := hold.creates hnone
      exact hcall.own_creates hnone hsalt hfinds herr hpc hn
  · intro f hsome
    rw [hfd] at hsome
    split_ifs at hsome with hpc
    · have hdir := Option.some.inj hsome
      obtain ⟨k, hf, hr⟩ := h.salt f hdir
      have hpc' : ((worldStep P R w i).inst i).pc = .statSalt f := by
        simp [instanceStep, hpc, hdir]
      refine ⟨⟨k, hf, (renamed_worldStep h).mpr (.inl hr), .inl hpc'⟩, ?_⟩
      rw [hpc']
      simp [Pc.beforeRename]
    · obtain ⟨⟨k, hf, hr, hsalt⟩, hrest⟩ := hold.finds f hsome
      have hdata : w.fs.data f = (R.salt k).toList := hf ▸ h.renamed_data hr
      obtain ⟨hsalt', hrest'⟩ := hcall.own_finds hpc hdata hsalt hrest
      exact ⟨⟨k, hf, (renamed_worldStep h).mpr (.inl hr), hsalt'⟩, hrest'⟩

theorem WorldInv.step (h : WorldInv P R w n) (i : Proc) :
    WorldInv P R (worldStep P R w i) (Function.update n i (n i + 1)) := by
  have hcall := worldStep_call P R w i
  have hold := h.instances i
  constructor
  · intro j
    by_cases hj : j = i
    · subst hj
      exact hcall.own_salt (h.salts j) hold.creates_of_beforeRename
        (fun hfd => (hold.creates hfd).1) hold.saltFd_of_openSalt
    · rw [hcall.data_of_ne hj, worldStep_inst_ne hj]
      exact h.salts j
  · intro j
    by_cases hj : j = i
    · subst hj
      exact hcall.own_identity (h.identities j)
    · rw [hcall.data_of_ne hj, worldStep_inst_ne hj]
      exact h.identities j
  · intro j k
    by_cases hj : j = i
    · subst hj
      exact hcall.own_tmp (h.tmps j k)
    · rw [hcall.tmp_of_ne hj, worldStep_inst_ne hj]
      exact h.tmps j k
  · intro f hf
    rw [hcall.final] at hf
    split_ifs at hf with hpc
    · rw [h.tmps i .salt (by simp [hpc, Pc.publishes])] at hf
      have hfd := hold.creates_of_beforeRename (by simp [hpc, Pc.beforeRename])
      exact ⟨i, (Option.some.inj hf).symm, (renamed_worldStep h).mpr (.inr ⟨rfl, hpc, hfd⟩)⟩
    · obtain ⟨j, hfj, hr⟩ := h.salt f hf
      exact ⟨j, hfj, (renamed_worldStep h).mpr (.inl hr)⟩
  · intro hnone j hr
    rw [hcall.final] at hnone
    split_ifs at hnone with hpc
    · rw [h.tmps i .salt (by simp [hpc, Pc.publishes])] at hnone
      cases hnone
    · rcases (renamed_worldStep h).mp hr with hr' | ⟨-, hpc', -⟩
      · exact h.noSalt hnone j hr'
      · exact hpc hpc'
  · intro f hf
    rw [hcall.final] at hf
    split_ifs at hf with hpc
    · rw [h.tmps i .identity (by simp [hpc, Pc.publishes])] at hf
      exact ⟨i, (Option.some.inj hf).symm, hcall.identityRenamed.mpr (.inr hpc)⟩
    · obtain ⟨j, hfj, hr⟩ := h.identity f hf
      refine ⟨j, hfj, ?_⟩
      by_cases hj : j = i
      · subst hj
        exact hcall.identityRenamed.mpr (.inl hr)
      · rw [worldStep_inst_ne hj]
        exact hr
  · intro hnone j
    rw [hcall.final] at hnone
    split_ifs at hnone with hpc
    · rw [h.tmps i .identity (by simp [hpc, Pc.publishes])] at hnone
      cases hnone
    · have hold' := h.noIdentity hnone j
      by_cases hj : j = i
      · subst hj
        rw [Bool.eq_false_iff, ne_eq, hcall.identityRenamed]
        simp [hold', hpc]
      · rw [worldStep_inst_ne hj]
        exact hold'
  · intro j
    by_cases hj : j = i
    · subst hj
      rw [Function.update_self]
      exact .worldStep_self h
    · rw [Function.update_of_ne hj]
      exact .worldStep_ne h hj

/-- The run lemma: the invariant holds after every interleaving. -/
theorem worldInv_run (schedule : List Proc) :
    WorldInv P R (worldRun P R schedule) (fun i => schedule.count i) := by
  induction schedule using List.reverseRecOn with
  | nil => exact worldInv_start
  | append_singleton schedule i ih =>
    have hstep := ih.step i
    have hcount : Function.update (fun i => schedule.count i) i (schedule.count i + 1) =
        fun j => (schedule ++ [i]).count j := by
      funext j
      by_cases hj : j = i
      · subst hj
        simp
      · simp [hj, Ne.symm hj]
    rw [hcount] at hstep
    simpa [worldRun, List.foldl_append] using hstep

theorem InstanceInv.count_of_creates {m : Nat} (h : InstanceInv R w i m)
    (hc : (w.inst i).Creates) : ((w.inst i).Renamed ∧ 6 ≤ m) ∨ (¬ (w.inst i).Renamed ∧ 0 < m ∧ m < 6) := by
  obtain ⟨-, -, -, hm⟩ := h.creates hc
  have hpos := (h.opened hc.saltFd_ne).2
  cases hb : (w.inst i).pc.beforeRename with
  | none =>
    simp only [hb] at hm
    exact .inl ⟨⟨hc, hb⟩, hm⟩
  | some k =>
    simp only [hb] at hm
    refine .inr ⟨fun hr => by simp [hr.2] at hb, hpos, ?_⟩
    subst hm
    revert hb
    cases (w.inst i).pc with
    | create kind => cases kind <;> simp [Pc.beforeRename]; omega
    | write kind => cases kind <;> simp [Pc.beforeRename]; omega
    | fsync kind => cases kind <;> simp [Pc.beforeRename]; omega
    | close kind => cases kind <;> simp [Pc.beforeRename]; omega
    | rename kind => cases kind <;> simp [Pc.beforeRename]; omega
    | _ => simp [Pc.beforeRename]

/-- What an instance has found out about the salt, it does not find out again. -/
theorem creates_worldStep (h : WorldInv P R w n) (hc : (w.inst j).Creates) :
    ((worldStep P R w i).inst j).Creates := by
  by_cases hj : j = i
  · subst hj
    rw [Instance.Creates, (worldStep_call P R w j).saltFd, if_neg]
    · exact hc
    · exact ((h.instances j).opened hc.saltFd_ne).1
  · rw [worldStep_inst_ne hj]
    exact hc

theorem worldRun_append (before : List Proc) (i : Proc) :
    worldRun P R (before ++ [i]) = worldStep P R (worldRun P R before) i := by
  simp [worldRun, List.foldl_append]

theorem creates_worldRun {before rest : List Proc} (hc : ((worldRun P R before).inst j).Creates) :
    ((worldRun P R (before ++ rest)).inst j).Creates := by
  induction rest using List.reverseRecOn with
  | nil => simpa using hc
  | append_singleton rest i ih =>
    rw [← List.append_assoc, worldRun_append]
    exact creates_worldStep (worldInv_run _) ih

theorem creates_of_overlap {schedule : List Proc} (h : Overlap schedule) (i : Proc) :
    ((worldRun P R schedule).inst i).Creates := by
  obtain ⟨before, ⟨rest, rfl⟩, hcount⟩ := h
  apply creates_worldRun
  have hinv : WorldInv P R (worldRun P R before) _ := worldInv_run before
  match hfd : ((worldRun P R before).inst i).saltFd with
  | none => exact absurd ((hinv.instances i).unopened hfd).2 (hcount i).1.ne'
  | some none => exact hfd
  | some (some f) =>
    obtain ⟨⟨j, -, hr, -⟩, -⟩ := (hinv.instances i).finds f hfd
    rcases (hinv.instances j).count_of_creates hr.1 with ⟨-, hj⟩ | ⟨hj, -⟩
    · exact absurd hj (Nat.not_le.mpr (hcount j).2)
    · exact absurd hr hj

theorem overlap_of_creates {schedule : List Proc}
    (h : ∀ i, ((worldRun P R schedule).inst i).Creates) : Overlap schedule := by
  induction schedule using List.reverseRecOn with
  | nil => exact absurd (h 0) (by simp [worldRun, worldStart, Instance.Creates])
  | append_singleton schedule i ih =>
    have hinv : WorldInv P R (worldRun P R schedule) _ := worldInv_run schedule
    by_cases hall : ∀ j, ((worldRun P R schedule).inst j).Creates
    · obtain ⟨before, hpre, hcount⟩ := ih hall
      exact ⟨before, hpre.trans (List.prefix_append _ _), hcount⟩
    -- the last call is the one that has looked for the salt
    rw [worldRun_append] at h
    have hothers : ∀ j, j ≠ i → ((worldRun P R schedule).inst j).Creates := by
      intro j hj
      have := h j
      rwa [worldStep_inst_ne hj] at this
    have hfd := h i
    rw [Instance.Creates, (worldStep_call P R _ i).saltFd] at hfd
    split_ifs at hfd with hpc
    swap
    · refine absurd (fun j => ?_) hall
      by_cases hj : j = i
      · exact hj ▸ hfd
      · exact hothers j hj
    have hzero := ((hinv.instances i).unopened ((hinv.instances i).saltFd_of_openSalt hpc)).2
    refine ⟨schedule ++ [i], List.prefix_rfl, fun j => ?_⟩
    by_cases hj : j = i
    · subst hj
      simp [hzero]
    · rcases (hinv.instances j).count_of_creates (hothers j hj) with ⟨hr, -⟩ | ⟨-, hlt⟩
      · exact absurd hr (hinv.noSalt (Option.some.inj hfd) j)
      · simpa [Ne.symm hj] using hlt

/-- At the end an instance holds its own salt or the one that it has found. -/
theorem salt_of_finished (h : WorldInv P R w n) (hfin : w.Finished) (i : Proc) :
    ∃ j, (w.inst j).Renamed ∧ (w.inst i).salt = some (R.salt j).toList := by
  match hfd : (w.inst i).saltFd with
  | none => simpa [((h.instances i).unopened hfd).1, Pc.finished] using hfin i
  | some none =>
    exact ⟨i, ⟨hfd, Pc.beforeRename_of_finished (hfin i)⟩, ((h.instances i).creates hfd).1⟩
  | some (some f) =>
    obtain ⟨⟨j, -, hr, hsalt⟩, -⟩ := (h.instances i).finds f hfd
    refine ⟨j, hr, ?_⟩
    rcases hsalt with hpc | hpc | ⟨hsalt, -⟩
    · simpa [hpc, Pc.finished] using hfin i
    · simpa [hpc, Pc.finished] using hfin i
    · exact hsalt

/-- The stored salt at the end. -/
theorem stored_salt (h : WorldInv P R w n) (hfin : w.Finished) :
    ∃ j, w.fs.dir (.final .salt) = some ⟨j, .salt⟩ ∧ (w.inst j).Renamed ∧
      w.fs.data ⟨j, .salt⟩ = (R.salt j).toList := by
  obtain ⟨k, hk, -⟩ := salt_of_finished h hfin 0
  cases hdir : w.fs.dir (.final .salt) with
  | none => exact absurd hk (h.noSalt hdir k)
  | some f =>
    obtain ⟨j, rfl, hr⟩ := h.salt f hdir
    exact ⟨j, rfl, hr, h.renamed_data hr⟩

/-- The stored identity at the end, sealed with the salt of the instance that made it. -/
theorem stored_identity (h : WorldInv P R w n) (hfin : w.Finished) :
    ∃ j, w.fs.dir (.final .identity) = some ⟨j, .identity⟩ ∧
      w.fs.data ⟨j, .identity⟩ = (R.nonce j).toList ++ sealedIdentity P R j (w.inst j) := by
  have hrenamed : ∀ i, (w.inst i).pc.identityRenamed = true := by
    intro i
    have hdone := hfin i
    have herr : (w.inst i).pc ≠ .saltError := by
      match hfd : (w.inst i).saltFd with
      | none => simp [((h.instances i).unopened hfd).1]
      | some none => exact ((h.instances i).creates hfd).2.2.1
      | some (some f) => exact ((h.instances i).finds f hfd).2.2.2
    cases hpc : (w.inst i).pc <;> simp_all [Pc.finished, Pc.identityRenamed]
  cases hdir : w.fs.dir (.final .identity) with
  | none => simpa [hrenamed 0] using h.noIdentity hdir 0
  | some f =>
    obtain ⟨j, rfl, hr⟩ := h.identity f hdir
    refine ⟨j, rfl, ?_⟩
    rw [h.identities j, identityData]
    cases hpc : (w.inst j).pc with
    | fsyncDir k => cases k <;> simp_all [Pc.identityRenamed, Pc.identityStage]
    | _ => simp_all [Pc.identityRenamed, Pc.identityStage]

theorem openIdentityFile_sealed (hopen : P.Opens) (key : Key) (nonce : Block 24) (plain : Bytes) :
    openIdentityFile P key (nonce.toList ++ P.secretbox key nonce plain) = some plain := by
  have hdrop : (nonce.toList ++ P.secretbox key nonce plain).drop 24 =
      P.secretbox key nonce plain :=
    List.drop_left' nonce.toList_length
  rw [openIdentityFile, Block.ofBytes_append, hdrop]
  exact hopen key nonce plain

theorem consistent_iff_salts (hopen : P.Opens) (h : WorldInv P R w n) (hfin : w.Finished) :
    Consistent P R w ↔ ∃ j, w.fs.dir (.final .salt) = some ⟨j, .salt⟩ ∧
      ∀ i, (w.inst i).salt = some (R.salt j).toList := by
  obtain ⟨j, hdir, -, hdata⟩ := stored_salt h hfin
  constructor
  · rintro ⟨f, g, salt, secret, hf, hsalt, hall, -⟩
    have hfj : f = ⟨j, .salt⟩ := Option.some.inj (hf.symm.trans hdir)
    refine ⟨j, hdir, fun i => ?_⟩
    rw [hall i, ← hsalt, hfj, hdata]
  · rintro ⟨k, hk, hall⟩
    have hkj : (⟨k, .salt⟩ : Inode) = ⟨j, .salt⟩ := Option.some.inj (hk.symm.trans hdir)
    obtain ⟨rfl, -⟩ := Inode.mk.inj hkj
    obtain ⟨g, hg, hsealed⟩ := stored_identity h hfin
    refine ⟨⟨k, .salt⟩, ⟨g, .identity⟩, (R.salt k).toList, (R.secret g).toList, hk, hdata, hall, hg, ?_⟩
    rw [hsealed, sealedIdentity, unlockKey, hall g]
    exact openIdentityFile_sealed hopen _ _ _

theorem consistent_iff_creates (hopen : P.Opens) (h : WorldInv P R w n) (hfin : w.Finished) :
    Consistent P R w ↔ ¬ (∀ i, (w.inst i).Creates) ∨ R.salt 0 = R.salt 1 := by
  rw [consistent_iff_salts hopen h hfin]
  obtain ⟨j, hdir, hr, -⟩ := stored_salt h hfin
  constructor
  · rintro ⟨k, -, hall⟩
    by_cases hboth : ∀ i, (w.inst i).Creates
    · refine .inr (List.Vector.toList_injective ?_)
      have h0 := ((h.instances 0).creates (hboth 0)).1
      have h1 := ((h.instances 1).creates (hboth 1)).1
      rw [hall 0] at h0
      rw [hall 1] at h1
      exact (Option.some.inj h0).symm.trans (Option.some.inj h1)
    · exact .inl hboth
  · intro hcond
    refine ⟨j, hdir, fun i => ?_⟩
    obtain ⟨k, hk, hsalt⟩ := salt_of_finished h hfin i
    suffices hkj : R.salt k = R.salt j by rw [hsalt, hkj]
    rcases hcond with hone | hsame
    · by_contra hne
      refine hone fun a => ?_
      have htwo : ∀ a k j : Proc, k ≠ j → a = k ∨ a = j := by decide
      rcases htwo a k j (fun h => hne (h ▸ rfl)) with rfl | rfl
      · exact hk.1
      · exact hr.1
    · fin_cases k <;> fin_cases j <;> simp [hsame]

theorem remaining_worldRun (schedule : List Proc) (i : Proc) :
    ((worldRun P R schedule).inst i).pc.remaining ≤ 17 - schedule.count i := by
  induction schedule using List.reverseRecOn with
  | nil => simp [worldRun, worldStart, Pc.remaining]
  | append_singleton schedule j ih =>
    rw [worldRun_append]
    by_cases hi : i = j
    · subst hi
      have hcall := (worldStep_call P R (worldRun P R schedule) i).remaining
      rw [List.count_append, List.count_singleton_self]
      omega
    · rw [worldStep_inst_ne hi]
      simpa [hi, Ne.symm hi] using ih

theorem finished_of_count {schedule : List Proc} (h : ∀ i, 17 ≤ schedule.count i) :
    (worldRun P R schedule).Finished := by
  intro i
  have hle := remaining_worldRun (P := P) (R := R) schedule i
  have hcount := h i
  exact Pc.finished_iff.mpr (by omega)

/-- Two first runs at once end consistent exactly when they do not overlap or draw one salt; and
they do end. -/
theorem concurrent_first_run_consistent_iff (hopen : P.Opens) (schedule : List Proc) :
    ((∀ i, 17 ≤ schedule.count i) → (worldRun P R schedule).Finished) ∧
      ((worldRun P R schedule).Finished →
        (Consistent P R (worldRun P R schedule) ↔
          ¬ Overlap schedule ∨ R.salt 0 = R.salt 1)) := by
  constructor
  · exact finished_of_count
  · intro hfin
    have hboth : (∀ i, ((worldRun P R schedule).inst i).Creates) ↔ Overlap schedule :=
      ⟨overlap_of_creates, creates_of_overlap⟩
    rw [consistent_iff_creates hopen (worldInv_run schedule) hfin, hboth]

end Runs

/-- The draws of two instances, with different salts. -/
def sampleDraws : Draws where
  pin := [49, 50, 51, 52]
  unlock := fun pin salt => Block.ofBytes 32 (salt ++ pin)
  salt := fun i => Block.ofBytes 16 [1 + UInt8.ofNat i.val]
  secret := fun i => Block.ofBytes 64 [7, UInt8.ofNat i.val]
  nonce := fun i => Block.ofBytes 24 [9, UInt8.ofNat i.val]

/-- One instance after the other. -/
theorem concurrent_first_run_consistent_sequential :
    sampleDbPrimitives.Opens ∧
      (worldRun sampleDbPrimitives sampleDraws
        (List.replicate 17 0 ++ List.replicate 17 1)).Finished ∧
      Consistent sampleDbPrimitives sampleDraws
        (worldRun sampleDbPrimitives sampleDraws (List.replicate 17 0 ++ List.replicate 17 1)) := by
  have hrun := concurrent_first_run_consistent_iff (R := sampleDraws) sampleDbPrimitives_opens
    (List.replicate 17 0 ++ List.replicate 17 1)
  have hfin := hrun.1 (by decide)
  exact ⟨sampleDbPrimitives_opens, hfin, (hrun.2 hfin).mpr (.inl (by decide +kernel))⟩

/-- Both look for the salt; the first instance renames its salt first and its identity last. -/
def overlapSchedule : List Proc :=
  [0, 1] ++ List.replicate 6 0 ++ List.replicate 16 1 ++ List.replicate 10 0

/-- The identity that is stored at the end does not open with the salt that is stored. -/
theorem concurrent_first_run_loses_identity :
    (worldRun sampleDbPrimitives sampleDraws overlapSchedule).Finished ∧
      ¬ Consistent sampleDbPrimitives sampleDraws
        (worldRun sampleDbPrimitives sampleDraws overlapSchedule) ∧
      ∃ f g, (worldRun sampleDbPrimitives sampleDraws overlapSchedule).fs.dir (.final .salt) =
          some f ∧
        (worldRun sampleDbPrimitives sampleDraws overlapSchedule).fs.dir (.final .identity) =
          some g ∧
        openIdentityFile sampleDbPrimitives
          (sampleDraws.unlock sampleDraws.pin
            ((worldRun sampleDbPrimitives sampleDraws overlapSchedule).fs.data f))
          ((worldRun sampleDbPrimitives sampleDraws overlapSchedule).fs.data g) = none := by
  have hfin : (worldRun sampleDbPrimitives sampleDraws overlapSchedule).Finished :=
    finished_of_count (by decide +kernel)
  have hover : Overlap overlapSchedule := by decide +kernel
  refine ⟨hfin, ?_, ⟨1, .salt⟩, ⟨0, .identity⟩, by decide +kernel, by decide +kernel,
    by decide +kernel⟩
  rw [consistent_iff_creates sampleDbPrimitives_opens (worldInv_run _) hfin]
  rintro (hone | hsame)
  · exact hone (creates_of_overlap hover)
  · exact absurd hsame (by decide +kernel)
end Boot
end Noxtor
