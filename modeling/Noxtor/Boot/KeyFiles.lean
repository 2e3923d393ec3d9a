import Noxtor.Boot.FirstRun
import Noxtor.Lib.StagedFile

/-!
# The salt and the identity on disk

`crypto_load_or_create_salt`, `crypto_generate_identity` and `crypto_load_identity`, call by call,
in a process that has the config directory for itself.  Each call of the operating system takes
its result from a list, so a run over a list of results is a run up to some call, and what holds
after every list holds at every step.

Both files are written under a temporary name.  As long as the new file is incomplete it has no
other name, and it is renamed only after the last byte; every way out before that unlinks it.
-/

namespace Noxtor
namespace Boot

open ByteString Db StagedFile

/-- The config directory. -/
abbrev ConfigDir := StagedFile.Fs Bytes UInt8

/-- Why a call fails although the directory would allow it; `ENOENT` and `EEXIST` are what the
directory itself says. -/
inductive Errno where
  | eintr
  | einval
  | enotsup
  | other (code : Nat)
deriving DecidableEq

/-- The result of a call; `read` and `write` move at most `count` bytes. -/
inductive Outcome where
  | ok (count : Nat)
  | fail (errno : Errno)
deriving DecidableEq

/-- What a function returns, or nothing as long as it runs. -/
abbrev Ret := Except NoxErr Unit

/-- Whether a loop goes on, with the bytes that it has moved, or ends. -/
inductive Turn where
  | again (moved : Nat)
  | stop (ret : Ret)
deriving DecidableEq

/-- The test of the loop, `remaining > 0`. -/
def Turn.next (moved len : Nat) : Turn :=
  if moved < len then .again moved else .stop (.ok ())

/-- One `read` of `read_exact`, and the buffer behind it. -/
def readExactTurn (content buf : Bytes) (len moved : Nat) : Outcome → Turn × Bytes
  | .fail .eintr => (.again moved, buf)
  | .fail _ => (.stop (.error .io), buf)
  | .ok count =>
      let chunk := ((content.drop moved).take (len - moved)).take count
      if chunk = [] then (.stop (.error .io), buf)
      else
        (.next (moved + chunk.length) len,
          buf.take moved ++ chunk ++ buf.drop (moved + chunk.length))

/-- One `write` of `write_exact`, and the directory behind it. -/
def writeExactTurn (file : Nat) (buf : Bytes) (moved : Nat) (fs : ConfigDir) :
    Outcome → Turn × ConfigDir
  | .fail .eintr => (.again moved, fs)
  | .fail _ => (.stop (.error .io), fs)
  | .ok count =>
      let chunk := (buf.drop moved).take count
      if chunk = [] then (.stop (.error .io), fs)
      else (.next (moved + chunk.length) buf.length, fs.append file chunk)

/-- One `fsync` of `fsync_exact`; an interrupted one is made again. -/
def fsyncExactTurn : Outcome → Option Ret
  | .fail .eintr => none
  | .fail _ => some (.error .io)
  | .ok _ => some (.ok ())

/-- One `fsync` of `fsync_dir`. -/
def fsyncDirTurn : Outcome → Option Ret
  | .fail .eintr => none
  -- a file system that cannot sync a directory is only warned about
  | .fail .einval => some (.ok ())
  | .fail .enotsup => some (.ok ())
  | .fail _ => some (.error .io)
  | .ok _ => some (.ok ())

/-- The process id and the random bytes of one call. -/
structure KeyDraws where
  pid : Nat
  rnd : Block 4
  salt : Block 16
  seed : Block 32
  nonce : Block 24

/-- `crypto_sign_keypair` for the seed that it draws, and `crypto_sign_ed25519_sk_to_pk`. -/
structure SignPrimitives where
  keypair : Block 32 → Key × Block 64
  skToPk : Bytes → Option Key

/-- The public key is derived from the secret key that belongs to it. -/
def SignPrimitives.Derives (S : SignPrimitives) : Prop :=
  ∀ seed, S.skToPk (S.keypair seed).2.toList = some (S.keypair seed).1

/-- `"salt"`. -/
def saltName : Bytes := [115, 97, 108, 116]

/-- `"identity.key"`. -/
def identityName : Bytes := [105, 100, 101, 110, 116, 105, 116, 121, 46, 107, 101, 121]

def noxSaltLen : Nat := 16

/-- `IDENTITY_FILE_SIZE`: nonce, secret key and tag. -/
def identityFileSize : Nat := 24 + 64 + 16

/-- `"%s.tmp.%d.%02x%02x%02x%02x"`. -/
def tmpName (final : Bytes) (D : KeyDraws) : Bytes :=
  final ++ [46, 116, 109, 112, 46] ++ (Nat.toDigits 10 D.pid).map (fun c => UInt8.ofNat c.toNat) ++
    [46] ++ hex D.rnd.toList

/-- The size of `tmp_name`. -/
def tmpNameSize : Nat := 64

/-- The next call of `crypto_load_or_create_salt`, or what it has returned.  `close` is left out:
nobody looks at its result. -/
inductive SaltPc where
  | openSalt
  | statSalt (fd : Nat)
  | readSalt (fd : Nat) (moved : Nat)
  | createTmp
  | writeTmp (fd : Nat) (moved : Nat)
  | fsyncTmp
  | unlinkTmp
  | renameTmp
  | fsyncDir
  | returned (ret : Ret)
deriving DecidableEq

/-- A call of `crypto_load_or_create_salt`, with the buffer of its caller. -/
structure SaltCall where
  pc : SaltPc
  salt : Bytes
  fs : ConfigDir

/-- The arguments are checked; `none` is a null pointer. -/
def saltStart (salt : Option (Block 16)) (dirFd : Int) (fs : ConfigDir) : SaltCall :=
  { pc :=
      if salt = none then .returned (.error .crypto)
      else if dirFd < 0 then .returned (.error .config)
      else .openSalt
    salt := (salt.getD (.zero 16)).toList
    fs := fs }

section Salt

variable (D : KeyDraws)

/-- One call. -/
def saltStep (c : SaltCall) (r : Outcome) : SaltCall :=
  match c.pc with
  | .openSalt =>
      match r, c.fs.dir saltName with
      | .fail _, _ => { c with pc := .returned (.error .io) }
      | .ok _, some fd => { c with pc := .statSalt fd }
      -- ENOENT: the salt is drawn before the temporary file is opened
      | .ok _, none =>
          { c with
            salt := D.salt.toList
            pc :=
              if tmpNameSize ≤ (tmpName saltName D).length then .returned (.error .config)
              else .createTmp }
  | .statSalt fd =>
      match r with
      | .fail _ => { c with pc := .returned (.error .io) }
      | .ok _ =>
          { c with
            pc :=
              if (c.fs.data fd).length ≠ noxSaltLen then .returned (.error .io)
              else .readSalt fd 0 }
  | .readSalt fd moved =>
      match readExactTurn (c.fs.data fd) c.salt noxSaltLen moved r with
      | (.again moved', buf) => { c with pc := .readSalt fd moved', salt := buf }
      | (.stop ret, buf) => { c with pc := .returned ret, salt := buf }
  | .createTmp =>
      match r, c.fs.dir (tmpName saltName D) with
      | .ok _, none =>
          { c with pc := .writeTmp c.fs.next 0, fs := c.fs.create (tmpName saltName D) }
      | _, _ => { c with pc := .returned (.error .io) }
  | .writeTmp fd moved =>
      match writeExactTurn fd c.salt moved c.fs r with
      | (.again moved', fs) => { c with pc := .writeTmp fd moved', fs := fs }
      | (.stop (.ok ()), fs) => { c with pc := .fsyncTmp, fs := fs }
      | (.stop (.error _), fs) => { c with pc := .unlinkTmp, fs := fs }
  | .fsyncTmp =>
      match fsyncExactTurn r with
      | none => c
      | some (.ok ()) => { c with pc := .renameTmp }
      | some (.error _) => { c with pc := .unlinkTmp }
  | .unlinkTmp =>
      { c with pc := .returned (.error .io), fs := c.fs.unlink (tmpName saltName D) }
  | .renameTmp =>
      match r with
      | .fail _ => { c with pc := .unlinkTmp }
      | .ok _ => { c with pc := .fsyncDir, fs := c.fs.rename (tmpName saltName D) saltName }
  | .fsyncDir =>
      match fsyncDirTurn r with
      | none => c
      | some ret => { c with pc := .returned ret }
  | .returned _ => c

/-- `crypto_load_or_create_salt` over the results of its calls. -/
def cryptoLoadOrCreateSalt (salt : Option (Block 16)) (dirFd : Int) (fs : ConfigDir)
    (results : List Outcome) : SaltCall :=
  results.foldl (saltStep D) (saltStart salt dirFd fs)

end Salt

/-- The next call of `crypto_generate_identity`, or what it has returned. -/
inductive GeneratePc where
  | mallocSk
  | keypair
  | secretbox
  | createTmp
  | writeNonce (fd : Nat) (moved : Nat)
  | writeCipher (fd : Nat) (moved : Nat)
  | fsyncTmp (fd : Nat)
  | renameTmp
  | fsyncDir
  | unlinkTmp (ret : Ret)
  | returned (ret : Ret)
deriving DecidableEq

/-- A call of `crypto_generate_identity`, with the buffer of its caller. -/
structure GenerateCall where
  pc : GeneratePc
  publicKeyOut : Bytes
  fs : ConfigDir

/-- The label `cleanup`. -/
def generateCleanup (fd : Option Nat) (ret : Ret) : GeneratePc :=
  if fd.isSome = true then .unlinkTmp ret
  else if ret ≠ .ok () then .unlinkTmp ret
  else .returned ret

section Generate

variable (P : DbPrimitives) (S : SignPrimitives) (D : KeyDraws)

/-- The ciphertext of the secret key that is drawn. -/
def identityCipher (unlockKey : Key) : Bytes :=
  P.secretbox unlockKey D.nonce (S.keypair D.seed).2.toList

/-- The arguments and the length of the temporary name are checked. -/
def generateStart (dirFd : Int) (unlockKey publicKeyOut : Option Key)
    (fs : ConfigDir) : GenerateCall :=
  { pc :=
      if dirFd < 0 ∨ unlockKey = none ∨ publicKeyOut = none then .returned (.error .crypto)
      else if tmpNameSize ≤ (tmpName identityName D).length then .returned (.error .config)
      else .mallocSk
    publicKeyOut := (publicKeyOut.getD (.zero 32)).toList
    fs := fs }

/-- One call. -/
def generateStep (unlockKey : Key) (c : GenerateCall) (r : Outcome) : GenerateCall :=
  match c.pc with
  | .mallocSk =>
      match r with
      | .fail _ => { c with pc := .returned (.error .alloc) }
      | .ok _ => { c with pc := .keypair }
  | .keypair =>
      match r with
      | .fail _ => { c with pc := generateCleanup none (.error .crypto) }
      | .ok _ => { c with pc := .secretbox }
  | .secretbox =>
      match r with
      | .fail _ => { c with pc := generateCleanup none (.error .crypto) }
      | .ok _ => { c with pc := .createTmp }
  | .createTmp =>
      match r, c.fs.dir (tmpName identityName D) with
      | .ok _, none =>
          { c with pc := .writeNonce c.fs.next 0, fs := c.fs.create (tmpName identityName D) }
      | _, _ => { c with pc := generateCleanup none (.error .io) }
  | .writeNonce fd moved =>
      match writeExactTurn fd D.nonce.toList moved c.fs r with
      | (.again moved', fs) => { c with pc := .writeNonce fd moved', fs := fs }
      | (.stop (.ok ()), fs) => { c with pc := .writeCipher fd 0, fs := fs }
      | (.stop (.error _), fs) => { c with pc := generateCleanup (some fd) (.error .io), fs := fs }
  | .writeCipher fd moved =>
      match writeExactTurn fd (identityCipher P S D unlockKey) moved c.fs r with
      | (.again moved', fs) => { c with pc := .writeCipher fd moved', fs := fs }
      | (.stop (.ok ()), fs) => { c with pc := .fsyncTmp fd, fs := fs }
      | (.stop (.error _), fs) => { c with pc := generateCleanup (some fd) (.error .io), fs := fs }
  | .fsyncTmp fd =>
      match fsyncExactTurn r with
      | none => c
      | some (.ok ()) => { c with pc := .renameTmp }
      | some (.error _) => { c with pc := generateCleanup (some fd) (.error .io) }
  | .renameTmp =>
      match r with
      | .fail _ => { c with pc := generateCleanup none (.error .io) }
      | .ok _ => { c with pc := .fsyncDir, fs := c.fs.rename (tmpName identityName D) identityName }
  | .fsyncDir =>
      match fsyncDirTurn r with
      | none => c
      | some (.error _) => { c with pc := generateCleanup none (.error .io) }
      | some (.ok ()) =>
          { c with
            pc := generateCleanup none (.ok ()), publicKeyOut := (S.keypair D.seed).1.toList }
  | .unlinkTmp ret => { c with pc := .returned ret, fs := c.fs.unlink (tmpName identityName D) }
  | .returned _ => c

/-- `crypto_generate_identity` over the results of its calls. -/
def cryptoGenerateIdentity (dirFd : Int) (unlockKey publicKeyOut : Option Key)
    (fs : ConfigDir) (results : List Outcome) : GenerateCall :=
  results.foldl (generateStep P S D (unlockKey.getD (.zero 32)))
    (generateStart D dirFd unlockKey publicKeyOut fs)

end Generate

/-- The next call of `crypto_load_identity`, or what it has returned. -/
inductive LoadPc where
  | openIdentity
  | statIdentity (fd : Nat)
  | mallocBuf (fd : Nat)
  | readIdentity (fd : Nat) (moved : Nat)
  | returned (ret : Ret)
deriving DecidableEq

/-- A call of `crypto_load_identity`, with the buffers of its caller; `none` is a null pointer. -/
structure LoadCall where
  pc : LoadPc
  fileBuf : Bytes
  secretKeyOut : Option Bytes
  publicKeyOut : Option Bytes
deriving DecidableEq

/-- The function returns an error and zeroes both buffers. -/
def LoadCall.fail (err : NoxErr) (c : LoadCall) : LoadCall :=
  { c with
    pc := .returned (.error err)
    secretKeyOut := c.secretKeyOut.map fun _ => List.replicate 64 0
    publicKeyOut := c.publicKeyOut.map fun _ => List.replicate 32 0 }

/-- The arguments are checked. -/
def loadStart (dirFd : Int) (unlockKey : Option Key) (secretKeyOut : Option (Block 64))
    (publicKeyOut : Option Key) : LoadCall :=
  let c : LoadCall :=
    { pc := .openIdentity, fileBuf := []
      secretKeyOut := secretKeyOut.map (·.toList), publicKeyOut := publicKeyOut.map (·.toList) }
  if dirFd < 0 ∨ unlockKey = none ∨ secretKeyOut = none ∨ publicKeyOut = none then c.fail .crypto
  else c

section Load

variable (P : DbPrimitives) (S : SignPrimitives) (fs : ConfigDir)

/-- What is done with the file when it has been read. -/
def loadParse (unlockKey : Key) (c : LoadCall) : LoadCall :=
  match openIdentityFile P unlockKey c.fileBuf with
  | none => c.fail .auth
  | some secret =>
      match S.skToPk secret with
      | none => c.fail .crypto
      | some pk =>
          { c with
            pc := .returned (.ok ()), secretKeyOut := some secret, publicKeyOut := some pk.toList }

/-- One call. -/
def loadStep (unlockKey : Key) (c : LoadCall) (r : Outcome) : LoadCall :=
  match c.pc with
  | .openIdentity =>
      match r, fs.dir identityName with
      | .ok _, some fd => { c with pc := .statIdentity fd }
      | _, _ => c.fail .io
  | .statIdentity fd =>
      match r with
      | .fail _ => c.fail .io
      | .ok _ =>
          if (fs.data fd).length ≠ identityFileSize then c.fail .io
          else { c with pc := .mallocBuf fd }
  | .mallocBuf fd =>
      match r with
      | .fail _ => c.fail .alloc
      -- libsodium fills the memory that it hands out
      | .ok _ =>
          { c with pc := .readIdentity fd 0, fileBuf := List.replicate identityFileSize 0xdb }
  | .readIdentity fd moved =>
      match readExactTurn (fs.data fd) c.fileBuf identityFileSize moved r with
      | (.again moved', buf) => { c with pc := .readIdentity fd moved', fileBuf := buf }
      | (.stop (.error _), buf) => { c with fileBuf := buf }.fail .io
      | (.stop (.ok ()), buf) => loadParse P S unlockKey { c with fileBuf := buf }
  | .returned _ => c

/-- `crypto_load_identity` over the results of its calls; it changes nothing in the directory. -/
def cryptoLoadIdentity (dirFd : Int) (unlockKey : Option Key) (secretKeyOut : Option (Block 64))
    (publicKeyOut : Option Key) (results : List Outcome) : LoadCall :=
  results.foldl (loadStep P S fs (unlockKey.getD (.zero 32)))
    (loadStart dirFd unlockKey secretKeyOut publicKeyOut)

end Load

/-- What becomes of `moved` bytes of `len`, whichever way they go. -/
def moves (moved len : Nat) : Outcome → Turn × Nat
  | .fail .eintr => (.again moved, moved)
  | .fail _ => (.stop (.error .io), moved)
  | .ok 0 => (.stop (.error .io), moved)
  | .ok (n + 1) => (.next (min (moved + (n + 1)) len) len, min (moved + (n + 1)) len)

theorem moves_cases {moved len : Nat} (h : moved < len) (r : Outcome) :
    (∃ moved', moved' < len ∧ moves moved len r = (.again moved', moved')) ∨
      moves moved len r = (.stop (.ok ()), len) ∨
      moves moved len r = (.stop (.error .io), moved) := by
  rcases r with count | errno
  · rcases count with _ | n
    · exact .inr (.inr rfl)
    · by_cases hn : moved + (n + 1) < len
      · refine .inl ⟨moved + (n + 1), hn, ?_⟩
        simp [moves, Turn.next, Nat.min_eq_left hn.le, hn]
      · refine .inr (.inl ?_)
        simp [moves, Turn.next, Nat.min_eq_right (Nat.le_of_not_lt hn)]
  · cases errno
    · exact .inl ⟨moved, h, rfl⟩
    all_goals exact .inr (.inr rfl)

/-- A buffer whose first bytes have been read. -/
def partlyRead (content buf : Bytes) (moved : Nat) : Bytes :=
  content.take moved ++ buf.drop moved

theorem partlyRead_all {content buf : Bytes} (h : buf.length = content.length) :
    partlyRead content buf content.length = content := by
  simp [partlyRead, ← h]

theorem readExactTurn_partlyRead (content buf : Bytes) {moved : Nat}
    (hm : moved < content.length) (r : Outcome) :
    readExactTurn content (partlyRead content buf moved) content.length moved r =
      ((moves moved content.length r).1,
        partlyRead content buf (moves moved content.length r).2) := by
  rcases r with count | errno
  · rcases count with _ | n
    · simp [readExactTurn, moves]
    · have hrest : (content.drop moved).take (content.length - moved) = content.drop moved :=
        List.take_of_length_le (by rw [List.length_drop])
      have hlen : ((content.drop moved).take (n + 1)).length =
          min (moved + (n + 1)) content.length - moved := by
        rw [List.length_take, List.length_drop]
        omega
      have hne : (content.drop moved).take (n + 1) ≠ [] := by
        intro h
        rw [h, List.length_nil] at hlen
        omega
      have hmoved : moved + (min (moved + (n + 1)) content.length - moved) =
          min (moved + (n + 1)) content.length := by omega
      have htake : (partlyRead content buf moved).take moved = content.take moved := by
        rw [partlyRead, List.take_left' (by rw [List.length_take]; omega)]
      have hdrop : ∀ k, moved ≤ k → (partlyRead content buf moved).drop k = buf.drop k := by
        intro k hk
        rw [partlyRead, List.drop_append, List.drop_eq_nil_of_le (by rw [List.length_take]; omega),
          List.length_take, Nat.min_eq_left hm.le, List.drop_drop, List.nil_append]
        congr 1
        omega
      simp only [readExactTurn, hrest, if_neg hne, hlen, hmoved, htake, moves]
      rw [hdrop _ (by omega)]
      refine Prod.ext rfl ?_
      simp only [partlyRead]
      congr 1
      rw [← List.take_add, ← List.take_eq_take_min (i := moved + (n + 1))]
  · cases errno <;> rfl

/-- `write_exact` on the temporary file, behind what has been written before. -/
theorem writeExactTurn_staged (fs : ConfigDir) (tmp before : Bytes) {buf : Bytes} {moved : Nat}
    (hm : moved < buf.length) (r : Outcome) :
    writeExactTurn fs.next buf moved (fs.staged tmp (before ++ buf.take moved)) r =
      ((moves moved buf.length r).1,
        fs.staged tmp (before ++ buf.take (moves moved buf.length r).2)) := by
  rcases r with count | errno
  · rcases count with _ | n
    · simp [writeExactTurn, moves]
    · have hlen : ((buf.drop moved).take (n + 1)).length =
          min (moved + (n + 1)) buf.length - moved := by
        rw [List.length_take, List.length_drop]
        omega
      have hne : (buf.drop moved).take (n + 1) ≠ [] := by
        intro h
        rw [h, List.length_nil] at hlen
        omega
      have hmoved : moved + (min (moved + (n + 1)) buf.length - moved) =
          min (moved + (n + 1)) buf.length := by omega
      simp only [writeExactTurn, if_neg hne, hlen, hmoved, moves, Fs.append_staged]
      rw [List.append_assoc, ← List.take_add, ← List.take_eq_take_min]
  · cases errno <;> rfl

/-- The names of the two files, and how long they are. -/
def keyFiles : List (Bytes × Nat) :=
  [(saltName, noxSaltLen), (identityName, identityFileSize)]

/-- Each of the two names denotes what it denoted before, or a complete file. -/
def Atomic (fs fs' : ConfigDir) : Prop :=
  ∀ entry ∈ keyFiles, fs.Kept fs' entry.1 ∨
    ∃ content, fs'.Holds entry.1 content ∧ content.length = entry.2

/-- A name that is neither of the two. -/
def IsTemporary (tmp : Bytes) : Prop :=
  ∀ entry ∈ keyFiles, entry.1 ≠ tmp

theorem isTemporary_tmpName (D : KeyDraws) {final : Bytes}
    (h : final = saltName ∨ final = identityName) : IsTemporary (tmpName final D) := by
  intro entry hentry heq
  simp only [keyFiles, List.mem_cons, List.not_mem_nil, or_false] at hentry
  have hlen := congrArg List.length heq
  rcases h with rfl | rfl <;> rcases hentry with rfl | rfl <;>
    simp [tmpName, saltName, identityName] at heq hlen

section Atomic

variable {fs : ConfigDir} {tmp content final : Bytes}

theorem atomic_refl (fs : ConfigDir) : Atomic fs fs :=
  fun _ _ => .inl (Fs.kept_refl _ _)

theorem atomic_staged (h : IsTemporary tmp) : Atomic fs (fs.staged tmp content) :=
  fun entry hentry => .inl (Fs.kept_staged (h entry hentry))

theorem Atomic.unlink {fs' : ConfigDir} (hfs : Atomic fs fs') (h : IsTemporary tmp) :
    Atomic fs (fs'.unlink tmp) := by
  intro entry hentry
  have hne := h entry hentry
  rcases hfs entry hentry with ⟨hdir, hdata⟩ | ⟨content, ⟨file, hdir, hdata⟩, hlen⟩
  · refine .inl ⟨?_, hdata⟩
    rw [(Fs.kept_unlink hne).1, hdir]
  · refine .inr ⟨content, ⟨file, ?_, hdata⟩, hlen⟩
    rw [(Fs.kept_unlink hne).1, hdir]

/-- The file is complete when it gets its name. -/
theorem atomic_rename_staged (h : IsTemporary tmp)
    (hlen : ∀ entry ∈ keyFiles, entry.1 = final → content.length = entry.2) :
    Atomic fs ((fs.staged tmp content).rename tmp final) := by
  intro entry hentry
  have hne := h entry hentry
  by_cases hname : entry.1 = final
  · subst hname
    exact .inr ⟨content, Fs.holds_rename_staged hne, hlen entry hentry rfl⟩
  · exact .inl (Fs.kept_rename_staged hne hname)

end Atomic

section Salt

variable (D : KeyDraws) (salt : Block 16) (fs : ConfigDir)

/-- The states that a call in the directory `fs` goes through. -/
inductive SaltStage : SaltCall → Prop
  | openSalt : SaltStage ⟨.openSalt, salt.toList, fs⟩
  | statSalt {fd : Nat} (found : fs.dir saltName = some fd) :
      SaltStage ⟨.statSalt fd, salt.toList, fs⟩
  | readSalt {fd moved : Nat} (found : fs.dir saltName = some fd)
      (full : (fs.data fd).length = noxSaltLen) (rest : moved < noxSaltLen) :
      SaltStage ⟨.readSalt fd moved, partlyRead (fs.data fd) salt.toList moved, fs⟩
  | loaded {fd : Nat} (found : fs.dir saltName = some fd) :
      SaltStage ⟨.returned (.ok ()), fs.data fd, fs⟩
  | refused (err : NoxErr) (buf : Bytes) : SaltStage ⟨.returned (.error err), buf, fs⟩
  | createTmp (missing : fs.dir saltName = none) : SaltStage ⟨.createTmp, D.salt.toList, fs⟩
  | writeTmp {moved : Nat} (missing : fs.dir saltName = none) (rest : moved < noxSaltLen) :
      SaltStage ⟨.writeTmp fs.next moved, D.salt.toList,
        fs.staged (tmpName saltName D) (D.salt.toList.take moved)⟩
  | fsyncTmp (missing : fs.dir saltName = none) :
      SaltStage ⟨.fsyncTmp, D.salt.toList, fs.staged (tmpName saltName D) D.salt.toList⟩
  | unlinkTmp (content : Bytes) (missing : fs.dir saltName = none) :
      SaltStage ⟨.unlinkTmp, D.salt.toList, fs.staged (tmpName saltName D) content⟩
  | renameTmp (missing : fs.dir saltName = none) :
      SaltStage ⟨.renameTmp, D.salt.toList, fs.staged (tmpName saltName D) D.salt.toList⟩
  | fsyncDir (missing : fs.dir saltName = none) :
      SaltStage ⟨.fsyncDir, D.salt.toList,
        (fs.staged (tmpName saltName D) D.salt.toList).rename (tmpName saltName D) saltName⟩
  | givenUp (content : Bytes) (missing : fs.dir saltName = none) :
      SaltStage ⟨.returned (.error .io), D.salt.toList,
        (fs.staged (tmpName saltName D) content).unlink (tmpName saltName D)⟩
  | created (ret : Ret) (missing : fs.dir saltName = none) :
      SaltStage ⟨.returned ret, D.salt.toList,
        (fs.staged (tmpName saltName D) D.salt.toList).rename (tmpName saltName D) saltName⟩

variable {D salt fs} {c : SaltCall}

theorem SaltStage.step (h : SaltStage D salt fs c) (r : Outcome) :
    SaltStage D salt fs (saltStep D c r) := by
  cases h with
  | openSalt =>
    rcases r with count | errno
    · rcases hdir : fs.dir saltName with _ | fd
      · by_cases hlong : tmpNameSize ≤ (tmpName saltName D).length
        · simpa only [saltStep, hdir, if_pos hlong] using .refused .config D.salt.toList
        · simpa only [saltStep, hdir, if_neg hlong] using .createTmp hdir
      · simpa only [saltStep, hdir] using .statSalt hdir
    · exact .refused .io salt.toList
  | @statSalt fd found =>
    rcases r with count | errno
    · by_cases hlen : (fs.data fd).length = noxSaltLen
      · have hread : SaltStage D salt fs
            ⟨.readSalt fd 0, partlyRead (fs.data fd) salt.toList 0, fs⟩ :=
          .readSalt found hlen (by decide)
        simpa [saltStep, hlen, partlyRead] using hread
      · simpa [saltStep, hlen] using SaltStage.refused .io salt.toList
    · exact .refused .io salt.toList
  | @readSalt fd moved found full rest =>
    have hbuf : salt.toList.length = (fs.data fd).length := by
      rw [full, List.Vector.toList_length, noxSaltLen]
    have hturn := readExactTurn_partlyRead (fs.data fd) salt.toList (full ▸ rest) r
    rw [full] at hturn
    rcases moves_cases rest r with ⟨moved', hrest, hmoves⟩ | hmoves | hmoves
    · simpa only [saltStep, hturn, hmoves] using .readSalt found full hrest
    · have hall := partlyRead_all hbuf
      rw [full] at hall
      simpa only [saltStep, hturn, hmoves, hall] using .loaded found
    · simpa only [saltStep, hturn, hmoves] using .refused .io _
  | loaded found => exact .loaded found
  | refused err buf => exact .refused err buf
  | createTmp missing =>
    rcases r with count | errno
    · rcases hdir : fs.dir (tmpName saltName D) with _ | fd
      · have hwrite : SaltStage D salt fs ⟨.writeTmp fs.next 0, D.salt.toList,
            fs.staged (tmpName saltName D) (D.salt.toList.take 0)⟩ := .writeTmp missing (by decide)
        simpa only [saltStep, hdir, StagedFile.Fs.create, List.take_zero] using hwrite
      · simpa only [saltStep, hdir] using .refused .io D.salt.toList
    · exact .refused .io D.salt.toList
  | @writeTmp moved missing rest =>
    have hlen : D.salt.toList.length = noxSaltLen := List.Vector.toList_length _
    have hturn := writeExactTurn_staged fs (tmpName saltName D) [] (hlen ▸ rest) r
    rw [hlen, List.nil_append, List.nil_append] at hturn
    rcases moves_cases rest r with ⟨moved', hrest, hmoves⟩ | hmoves | hmoves
    · simpa only [saltStep, hturn, hmoves] using .writeTmp missing hrest
    · rw [hmoves, ← hlen, List.take_length] at hturn
      simpa only [saltStep, hturn] using .fsyncTmp missing
    · simpa only [saltStep, hturn, hmoves] using .unlinkTmp _ missing
  | fsyncTmp missing =>
    rcases r with count | errno
    · exact .renameTmp missing
    · cases errno
      · exact .fsyncTmp missing
      all_goals exact .unlinkTmp _ missing
  | unlinkTmp content missing => exact .givenUp content missing
  | renameTmp missing =>
    rcases r with count | errno
    · exact .fsyncDir missing
    · exact .unlinkTmp _ missing
  | fsyncDir missing =>
    rcases r with count | errno
    · exact .created _ missing
    · cases errno
      · exact .fsyncDir missing
      all_goals exact .created _ missing
  | givenUp content missing => exact .givenUp content missing
  | created ret missing => exact .created ret missing

/-- The run lemma. -/
theorem saltStage_run (D : KeyDraws) (fs : ConfigDir) (dirFd : Int) (salt : Option (Block 16))
    (results : List Outcome) :
    SaltStage D (salt.getD (.zero 16)) fs (cryptoLoadOrCreateSalt D salt dirFd fs results) := by
  induction results using List.reverseRecOn with
  | nil =>
    simp only [cryptoLoadOrCreateSalt, List.foldl_nil, saltStart]
    split
    · exact .refused .crypto _
    · split
      · exact .refused .config _
      · exact .openSalt
  | append_singleton results r ih =>
    rw [cryptoLoadOrCreateSalt, List.foldl_append]
    exact ih.step r

namespace SaltStage

theorem atomic (h : SaltStage D salt fs c) : Atomic fs c.fs := by
  have htmp : IsTemporary (tmpName saltName D) := isTemporary_tmpName D (.inl rfl)
  have hlen : ∀ entry ∈ keyFiles, entry.1 = saltName → D.salt.toList.length = entry.2 := by
    simp [keyFiles, saltName, identityName, noxSaltLen]
  cases h with
  | openSalt => exact atomic_refl fs
  | statSalt => exact atomic_refl fs
  | readSalt => exact atomic_refl fs
  | loaded => exact atomic_refl fs
  | refused => exact atomic_refl fs
  | createTmp => exact atomic_refl fs
  | writeTmp => exact atomic_staged htmp
  | fsyncTmp => exact atomic_staged htmp
  | unlinkTmp => exact atomic_staged htmp
  | renameTmp => exact atomic_staged htmp
  | fsyncDir => exact atomic_rename_staged htmp hlen
  | givenUp => exact (atomic_staged htmp).unlink htmp
  | created => exact atomic_rename_staged htmp hlen

theorem nothingAdded (h : SaltStage D salt fs c) {ret : Ret} (hret : c.pc = .returned ret) :
    fs.NothingAdded c.fs saltName := by
  cases h with
  | loaded => exact Fs.nothingAdded_refl fs saltName
  | refused => exact Fs.nothingAdded_refl fs saltName
  | givenUp => exact Fs.nothingAdded_unlink_staged saltName
  | created => exact Fs.nothingAdded_rename_staged
  | _ => cases hret

/-- A salt that exists is left alone, and it is what the caller gets. -/
theorem existing (h : SaltStage D salt fs c) {file : Nat} (hfile : fs.dir saltName = some file) :
    c.fs = fs ∧ (c.pc = .returned (.ok ()) → c.salt = fs.data file) := by
  cases h with
  | openSalt => exact ⟨rfl, fun h => by cases h⟩
  | statSalt => exact ⟨rfl, fun h => by cases h⟩
  | readSalt => exact ⟨rfl, fun h => by cases h⟩
  | loaded found =>
    rw [hfile] at found
    exact ⟨rfl, fun _ => by rw [Option.some.inj found]⟩
  | refused => exact ⟨rfl, fun h => by cases h⟩
  | createTmp missing => simp [hfile] at missing
  | writeTmp missing => simp [hfile] at missing
  | fsyncTmp missing => simp [hfile] at missing
  | unlinkTmp _ missing => simp [hfile] at missing
  | renameTmp missing => simp [hfile] at missing
  | fsyncDir missing => simp [hfile] at missing
  | givenUp _ missing => simp [hfile] at missing
  | created _ missing => simp [hfile] at missing

end SaltStage

theorem saltRun_returned {ret : Ret} (h : c.pc = .returned ret) (results : List Outcome) :
    results.foldl (saltStep D) c = c := by
  apply List.foldl_fixed'
  intro r
  simp only [saltStep, h]

/-- A file that cannot be opened is not replaced. -/
theorem salt_open_failed (D : KeyDraws) (salt : Option (Block 16)) (dirFd : Int) (fs : ConfigDir)
    (errno : Errno) (results : List Outcome) :
    let c := cryptoLoadOrCreateSalt D salt dirFd fs (.fail errno :: results)
    c.fs = fs ∧ c.salt = (salt.getD (.zero 16)).toList ∧ ∃ err, c.pc = .returned (.error err) := by
  have hfirst : ∃ err, saltStep D (saltStart salt dirFd fs) (.fail errno) =
      { saltStart salt dirFd fs with pc := .returned (.error err) } := by
    simp only [saltStart]
    split
    · exact ⟨.crypto, rfl⟩
    · split
      · exact ⟨.config, rfl⟩
      · exact ⟨.io, rfl⟩
  obtain ⟨err, herr⟩ := hfirst
  simp only [cryptoLoadOrCreateSalt, List.foldl_cons, herr]
  rw [saltRun_returned rfl]
  exact ⟨rfl, rfl, err, rfl⟩

end Salt

section Generate

variable (P : DbPrimitives) (S : SignPrimitives) (D : KeyDraws) (unlockKey : Key) (out : Bytes)
  (fs : ConfigDir)

/-- What a complete identity file contains. -/
def identityContent : Bytes :=
  D.nonce.toList ++ identityCipher P S D unlockKey

theorem identityCipher_length : (identityCipher P S D unlockKey).length = 64 + 16 := by
  rw [identityCipher, P.secretbox_length, List.Vector.toList_length]

theorem identityContent_length :
    (identityContent P S D unlockKey).length = identityFileSize := by
  rw [identityContent, List.length_append, identityCipher_length, List.Vector.toList_length]
  rfl

/-- The states that a call in the directory `fs` goes through. -/
inductive GenerateStage : GenerateCall → Prop
  | start {pc : GeneratePc} (before : pc ∈ [.mallocSk, .keypair, .secretbox, .createTmp]) :
      GenerateStage ⟨pc, out, fs⟩
  | refused (err : NoxErr) : GenerateStage ⟨.returned (.error err), out, fs⟩
  | writeNonce {moved : Nat} (rest : moved < 24) :
      GenerateStage ⟨.writeNonce fs.next moved, out,
        fs.staged (tmpName identityName D) (D.nonce.toList.take moved)⟩
  | writeCipher {moved : Nat} (rest : moved < 64 + 16) :
      GenerateStage ⟨.writeCipher fs.next moved, out,
        fs.staged (tmpName identityName D)
          (D.nonce.toList ++ (identityCipher P S D unlockKey).take moved)⟩
  | fsyncTmp :
      GenerateStage ⟨.fsyncTmp fs.next, out,
        fs.staged (tmpName identityName D) (identityContent P S D unlockKey)⟩
  | renameTmp :
      GenerateStage ⟨.renameTmp, out,
        fs.staged (tmpName identityName D) (identityContent P S D unlockKey)⟩
  | fsyncDir :
      GenerateStage ⟨.fsyncDir, out,
        (fs.staged (tmpName identityName D) (identityContent P S D unlockKey)).rename
          (tmpName identityName D) identityName⟩
  | unlinkNothing (err : NoxErr) : GenerateStage ⟨.unlinkTmp (.error err), out, fs⟩
  | unlinkTmp (err : NoxErr) (content : Bytes) :
      GenerateStage ⟨.unlinkTmp (.error err), out, fs.staged (tmpName identityName D) content⟩
  | unlinkRenamed (err : NoxErr) :
      GenerateStage ⟨.unlinkTmp (.error err), out,
        (fs.staged (tmpName identityName D) (identityContent P S D unlockKey)).rename
          (tmpName identityName D) identityName⟩
  | nothingDone (err : NoxErr) :
      GenerateStage ⟨.returned (.error err), out, fs.unlink (tmpName identityName D)⟩
  | givenUp (err : NoxErr) (content : Bytes) :
      GenerateStage ⟨.returned (.error err), out,
        (fs.staged (tmpName identityName D) content).unlink (tmpName identityName D)⟩
  | notSynced (err : NoxErr) :
      GenerateStage ⟨.returned (.error err), out,
        ((fs.staged (tmpName identityName D) (identityContent P S D unlockKey)).rename
          (tmpName identityName D) identityName).unlink (tmpName identityName D)⟩
  | created :
      GenerateStage ⟨.returned (.ok ()), (S.keypair D.seed).1.toList,
        (fs.staged (tmpName identityName D) (identityContent P S D unlockKey)).rename
          (tmpName identityName D) identityName⟩

variable {P S D unlockKey out fs} {c : GenerateCall}

theorem GenerateStage.step_start {pc : GeneratePc}
    (before : pc ∈ [.mallocSk, .keypair, .secretbox, .createTmp]) (r : Outcome) :
    GenerateStage P S D unlockKey out fs (generateStep P S D unlockKey ⟨pc, out, fs⟩ r) := by
  simp only [List.mem_cons, List.not_mem_nil, or_false] at before
  rcases before with rfl | rfl | rfl | rfl
  · rcases r with count | errno
    · exact .start (by simp)
    · exact .refused .alloc
  · rcases r with count | errno
    · exact .start (by simp)
    · exact .unlinkNothing .crypto
  · rcases r with count | errno
    · exact .start (by simp)
    · exact .unlinkNothing .crypto
  · rcases r with count | errno
    · rcases hdir : fs.dir (tmpName identityName D) with _ | fd
      · have hwrite : GenerateStage P S D unlockKey out fs ⟨.writeNonce fs.next 0, out,
            fs.staged (tmpName identityName D) (D.nonce.toList.take 0)⟩ :=
          .writeNonce (by decide)
        simpa only [generateStep, hdir, StagedFile.Fs.create, List.take_zero] using hwrite
      · simpa only [generateStep, hdir] using .unlinkNothing .io
    · exact .unlinkNothing .io

theorem GenerateStage.step (h : GenerateStage P S D unlockKey out fs c) (r : Outcome) :
    GenerateStage P S D unlockKey out fs (generateStep P S D unlockKey c r) := by
  cases h with
  | start before => exact step_start before r
  | refused err => exact .refused err
  | @writeNonce moved rest =>
    have hlen : D.nonce.toList.length = 24 := List.Vector.toList_length _
    have hturn := writeExactTurn_staged fs (tmpName identityName D) [] (hlen ▸ rest) r
    rw [hlen, List.nil_append, List.nil_append] at hturn
    rcases moves_cases rest r with ⟨moved', hrest, hmoves⟩ | hmoves | hmoves
    · simpa only [generateStep, hturn, hmoves] using .writeNonce hrest
    · have hwrite : GenerateStage P S D unlockKey out fs ⟨.writeCipher fs.next 0, out,
          fs.staged (tmpName identityName D)
            (D.nonce.toList ++ (identityCipher P S D unlockKey).take 0)⟩ :=
        .writeCipher (by decide)
      have hall : D.nonce.toList.take 24 = D.nonce.toList := List.take_of_length_le hlen.le
      rw [List.take_zero, List.append_nil] at hwrite
      simpa only [generateStep, hturn, hmoves, hall] using hwrite
    · simpa only [generateStep, hturn, hmoves] using .unlinkTmp .io _
  | @writeCipher moved rest =>
    have hlen := identityCipher_length P S D unlockKey
    have hturn := writeExactTurn_staged fs (tmpName identityName D) D.nonce.toList (hlen ▸ rest) r
    rw [hlen] at hturn
    rcases moves_cases rest r with ⟨moved', hrest, hmoves⟩ | hmoves | hmoves
    · simpa only [generateStep, hturn, hmoves] using .writeCipher hrest
    · rw [hmoves, ← hlen, List.take_length] at hturn
      simpa only [generateStep, hturn] using .fsyncTmp
    · simpa only [generateStep, hturn, hmoves] using .unlinkTmp .io _
  | fsyncTmp =>
    rcases r with count | errno
    · exact .renameTmp
    · cases errno
      · exact .fsyncTmp
      all_goals exact .unlinkTmp .io _
  | renameTmp =>
    rcases r with count | errno
    · exact .fsyncDir
    · exact .unlinkTmp .io _
  | fsyncDir =>
    rcases r with count | errno
    · exact .created
    · cases errno
      · exact .fsyncDir
      · exact .created
      · exact .created
      · exact .unlinkRenamed .io
  | unlinkNothing err => exact .nothingDone err
  | unlinkTmp err content => exact .givenUp err content
  | unlinkRenamed err => exact .notSynced err
  | nothingDone err => exact .nothingDone err
  | givenUp err content => exact .givenUp err content
  | notSynced err => exact .notSynced err
  | created => exact .created

/-- The run lemma. -/
theorem generateStage_run (P : DbPrimitives) (S : SignPrimitives) (D : KeyDraws)
    (fs : ConfigDir) (dirFd : Int) (unlockKey publicKeyOut : Option Key) (results : List Outcome) :
    GenerateStage P S D (unlockKey.getD (.zero 32)) (publicKeyOut.getD (.zero 32)).toList fs
      (cryptoGenerateIdentity P S D dirFd unlockKey publicKeyOut fs results) := by
  induction results using List.reverseRecOn with
  | nil =>
    simp only [cryptoGenerateIdentity, List.foldl_nil, generateStart]
    split
    · exact .refused .crypto
    · split
      · exact .refused .config
      · exact .start (by simp)
  | append_singleton results r ih =>
    rw [cryptoGenerateIdentity, List.foldl_append]
    exact ih.step r

namespace GenerateStage

theorem atomic (h : GenerateStage P S D unlockKey out fs c) : Atomic fs c.fs := by
  have htmp : IsTemporary (tmpName identityName D) := isTemporary_tmpName D (.inr rfl)
  have hlen : ∀ entry ∈ keyFiles, entry.1 = identityName →
      (identityContent P S D unlockKey).length = entry.2 := by
    rw [identityContent_length]
    simp [keyFiles, saltName, identityName]
  cases h with
  | start => exact atomic_refl fs
  | refused => exact atomic_refl fs
  | writeNonce => exact atomic_staged htmp
  | writeCipher => exact atomic_staged htmp
  | fsyncTmp => exact atomic_staged htmp
  | renameTmp => exact atomic_staged htmp
  | fsyncDir => exact atomic_rename_staged htmp hlen
  | unlinkNothing => exact atomic_refl fs
  | unlinkTmp => exact atomic_staged htmp
  | unlinkRenamed => exact atomic_rename_staged htmp hlen
  | nothingDone => exact (atomic_refl fs).unlink htmp
  | givenUp => exact (atomic_staged htmp).unlink htmp
  | notSynced => exact (atomic_rename_staged htmp hlen).unlink htmp
  | created => exact atomic_rename_staged htmp hlen

theorem nothingAdded (h : GenerateStage P S D unlockKey out fs c) {ret : Ret}
    (hret : c.pc = .returned ret) : fs.NothingAdded c.fs identityName := by
  cases h with
  | start before =>
    simp only at hret
    simp [hret] at before
  | refused => exact Fs.nothingAdded_refl fs identityName
  | nothingDone => exact (Fs.nothingAdded_refl fs identityName).unlink
  | givenUp => exact Fs.nothingAdded_unlink_staged identityName
  | notSynced => exact Fs.nothingAdded_rename_staged.unlink
  | created => exact Fs.nothingAdded_rename_staged
  | _ => cases hret

/-- What `NOX_OK` says. -/
theorem of_ok (h : GenerateStage P S D unlockKey out fs c) (hret : c.pc = .returned (.ok ())) :
    c.publicKeyOut = (S.keypair D.seed).1.toList ∧
      c.fs.Holds identityName (identityContent P S D unlockKey) := by
  cases h with
  | start before =>
    simp only at hret
    simp [hret] at before
  | created =>
    have htmp := isTemporary_tmpName D (.inr rfl)
    exact ⟨rfl, Fs.holds_rename_staged (htmp (identityName, identityFileSize) (by simp [keyFiles]))⟩
  | _ => cases hret

end GenerateStage

end Generate

section Load

variable {P : DbPrimitives} {S : SignPrimitives} {fs : ConfigDir} {unlockKey : Key} {c : LoadCall}

/-- Both buffers are there and contain only zeros. -/
def LoadCall.Zeroed (c : LoadCall) : Prop :=
  c.secretKeyOut = some (List.replicate 64 0) ∧ c.publicKeyOut = some (List.replicate 32 0)

theorem loadRun_returned {ret : Ret} (h : c.pc = .returned ret) (results : List Outcome) :
    results.foldl (loadStep P S fs unlockKey) c = c := by
  apply List.foldl_fixed'
  intro r
  simp only [loadStep, h]

/-- The bytes that a result moves. -/
def Outcome.count : Outcome → Nat
  | .ok count => count
  | .fail _ => 0

/-- A `read` that moves bytes, or that is made again. -/
def Outcome.Reads (r : Outcome) : Prop :=
  r = .fail .eintr ∨ 0 < r.count

instance (r : Outcome) : Decidable r.Reads :=
  inferInstanceAs (Decidable (_ ∨ _))

theorem loadParse_pc (c : LoadCall) (pc : LoadPc) :
    loadParse P S unlockKey { c with pc := pc } = loadParse P S unlockKey c :=
  rfl

theorem loadParse_returned (P : DbPrimitives) (S : SignPrimitives) (unlockKey : Key)
    (c : LoadCall) : ∃ ret, (loadParse P S unlockKey c).pc = .returned ret := by
  unfold loadParse
  split
  · exact ⟨_, rfl⟩
  · split
    · exact ⟨_, rfl⟩
    · exact ⟨_, rfl⟩

/-- The loop of `read_exact`: it ends as soon as the reads have moved the whole file. -/
theorem loadRun_read (P : DbPrimitives) (S : SignPrimitives) (unlockKey : Key) {fd : Nat}
    (hlen : (fs.data fd).length = identityFileSize) (c : LoadCall) {buf : Bytes}
    (hbuf : buf.length = identityFileSize) {reads : List Outcome}
    (hreads : ∀ r ∈ reads, r.Reads) (moved : Nat) (hm : moved < identityFileSize)
    (hsum : identityFileSize ≤ moved + (reads.map Outcome.count).sum) :
    reads.foldl (loadStep P S fs unlockKey)
        { c with pc := .readIdentity fd moved, fileBuf := partlyRead (fs.data fd) buf moved } =
      loadParse P S unlockKey { c with fileBuf := fs.data fd } := by
  induction reads generalizing moved with
  | nil =>
    simp only [List.map_nil, List.sum_nil, Nat.add_zero] at hsum
    omega
  | cons r reads ih =>
    have hrest : ∀ r ∈ reads, r.Reads := fun r hr => hreads r (List.mem_cons_of_mem _ hr)
    have hturn := readExactTurn_partlyRead (fs.data fd) buf (hlen ▸ hm) r
    rw [hlen] at hturn
    simp only [List.map_cons, List.sum_cons] at hsum
    rw [List.foldl_cons]
    rcases hreads r List.mem_cons_self with rfl | hcount
    · -- EINTR
      exact ih hrest moved hm (by simpa [Outcome.count] using hsum)
    · obtain ⟨n, rfl⟩ : ∃ n, r = .ok (n + 1) := by
        rcases r with count | errno
        · exact ⟨count - 1, by simp only [Outcome.count] at hcount; congr 1; omega⟩
        · simp [Outcome.count] at hcount
      simp only [Outcome.count] at hsum
      by_cases hend : moved + (n + 1) < identityFileSize
      · simp only [moves, Nat.min_eq_left hend.le, Turn.next, if_pos hend] at hturn
        simp only [loadStep, hturn]
        exact ih hrest _ hend (by omega)
      · have hall : partlyRead (fs.data fd) buf identityFileSize = fs.data fd := by
          have h := partlyRead_all (hbuf.trans hlen.symm)
          rwa [hlen] at h
        simp only [moves, Nat.min_eq_right (Nat.le_of_not_lt hend), Turn.next, lt_self_iff_false,
          if_false, hall] at hturn
        simp only [loadStep, hturn]
        obtain ⟨ret, hret⟩ := loadParse_returned P S unlockKey
          { c with pc := .readIdentity fd moved, fileBuf := fs.data fd }
        rw [loadRun_returned hret]
        exact loadParse_pc { c with fileBuf := fs.data fd } _

/-- The results of a call in which nothing fails, and whose reads move the whole file. -/
def LoadSucceeds (results : List Outcome) : Prop :=
  ∃ opened stat malloc reads,
    results = .ok opened :: .ok stat :: .ok malloc :: reads ∧ (∀ r ∈ reads, r.Reads) ∧
      identityFileSize ≤ (reads.map Outcome.count).sum

theorem load_of_succeeds {dirFd : Int} (hfd : 0 ≤ dirFd) (sk : Block 64) (pk : Key)
    {content : Bytes} (hfile : fs.Holds identityName content)
    (hlen : content.length = identityFileSize) {results : List Outcome}
    (hresults : LoadSucceeds results) :
    cryptoLoadIdentity P S fs dirFd (some unlockKey) (some sk) (some pk) results =
      loadParse P S unlockKey
        ⟨.openIdentity, content, some sk.toList, some pk.toList⟩ := by
  obtain ⟨opened, stat, malloc, reads, rfl, hreads, hsum⟩ := hresults
  obtain ⟨fd, hdir, rfl⟩ := hfile
  have hstart : loadStart dirFd (some unlockKey) (some sk) (some pk) =
      ⟨.openIdentity, [], some sk.toList, some pk.toList⟩ := by
    simp [loadStart, Int.not_lt.mpr hfd]
  have hbuf : (List.replicate identityFileSize (0xdb : UInt8)).length = identityFileSize :=
    List.length_replicate
  have hrun := loadRun_read P S unlockKey hlen
    ⟨.openIdentity, [], some sk.toList, some pk.toList⟩ hbuf hreads 0 (by decide)
    (by simpa using hsum)
  simp only [cryptoLoadIdentity, List.foldl_cons, hstart, loadStep, hdir, hlen, ne_eq,
    not_true_eq_false, if_false]
  exact hrun

/-- The buffers of a call that has got both, as long as it runs and when it has failed. -/
structure LoadInv (c : LoadCall) : Prop where
  secretKeyOut : c.secretKeyOut ≠ none
  publicKeyOut : c.publicKeyOut ≠ none
  zeroed : ∀ err, c.pc = .returned (.error err) → c.Zeroed

namespace LoadInv

/-- A call that goes on with the same buffers. -/
theorem continues (h : LoadInv c) {c' : LoadCall} (hsk : c'.secretKeyOut = c.secretKeyOut)
    (hpk : c'.publicKeyOut = c.publicKeyOut) (hpc : ∀ ret, c'.pc ≠ .returned ret) : LoadInv c' where
  secretKeyOut := hsk ▸ h.secretKeyOut
  publicKeyOut := hpk ▸ h.publicKeyOut
  zeroed := fun _ herr => absurd herr (hpc _)

theorem fail (h : LoadInv c) (err : NoxErr) : LoadInv (c.fail err) := by
  obtain ⟨sk, hsk⟩ := Option.ne_none_iff_exists'.mp h.secretKeyOut
  obtain ⟨pk, hpk⟩ := Option.ne_none_iff_exists'.mp h.publicKeyOut
  have hzero : (c.fail err).Zeroed := by simp [LoadCall.Zeroed, LoadCall.fail, hsk, hpk]
  exact ⟨by simp [hzero.1], by simp [hzero.2], fun _ _ => hzero⟩

theorem parse (h : LoadInv c) : LoadInv (loadParse P S unlockKey c) := by
  unfold loadParse
  split
  · exact h.fail .auth
  · split
    · exact h.fail .crypto
    · exact ⟨by simp, by simp, by simp⟩

theorem step (h : LoadInv c) (r : Outcome) : LoadInv (loadStep P S fs unlockKey c r) := by
  rcases hpc : c.pc with _ | fd | fd | ⟨fd, moved⟩ | ret
  · simp only [loadStep, hpc]
    split
    · exact h.continues rfl rfl (by simp)
    · exact h.fail .io
  · simp only [loadStep, hpc]
    split
    · exact h.fail .io
    · split
      · exact h.fail .io
      · exact h.continues rfl rfl (by simp)
  · simp only [loadStep, hpc]
    split
    · exact h.fail .alloc
    · exact h.continues rfl rfl (by simp)
  · have hbuf : ∀ buf, LoadInv { c with fileBuf := buf } := by
      intro buf
      exact h.continues rfl rfl (by simp [hpc])
    simp only [loadStep, hpc]
    split
    · exact h.continues rfl rfl (by simp)
    · exact (hbuf _).fail .io
    · exact (hbuf _).parse
  · simpa only [loadStep, hpc] using h

end LoadInv

theorem loadInv_run (dirFd : Int) (unlockKey : Option Key) (sk : Block 64) (pk : Key)
    (results : List Outcome) :
    LoadInv (cryptoLoadIdentity P S fs dirFd unlockKey (some sk) (some pk) results) := by
  induction results using List.reverseRecOn with
  | nil =>
    have hopen : LoadInv ⟨.openIdentity, [], some sk.toList, some pk.toList⟩ :=
      ⟨by simp, by simp, by simp⟩
    simp only [cryptoLoadIdentity, List.foldl_nil, loadStart, Option.map_some]
    split
    · exact hopen.fail .crypto
    · exact hopen
  | append_singleton results r ih =>
    rw [cryptoLoadIdentity, List.foldl_append]
    exact ih.step r

end Load

section Files

variable {P : DbPrimitives} {S : SignPrimitives} {D : KeyDraws} {fs : ConfigDir} {dirFd : Int}
  {unlockKey publicKeyOut : Option Key} {results : List Outcome}

theorem generateRun_returned {key : Key} {c : GenerateCall} {ret : Ret} (h : c.pc = .returned ret)
    (results : List Outcome) : results.foldl (generateStep P S D key) c = c := by
  apply List.foldl_fixed'
  intro r
  simp only [generateStep, h]

/-- Only a call with proper arguments succeeds. -/
theorem arguments_of_generate_ok
    (h : (cryptoGenerateIdentity P S D dirFd unlockKey publicKeyOut fs results).pc =
      .returned (.ok ())) :
    0 ≤ dirFd ∧ ∃ key, unlockKey = some key := by
  by_contra hargs
  have hbad : dirFd < 0 ∨ unlockKey = none ∨ publicKeyOut = none := by
    by_cases hfd : dirFd < 0
    · exact .inl hfd
    · refine .inr (.inl (by_contra fun hkey => hargs ⟨Int.not_lt.mp hfd, ?_⟩))
      exact Option.ne_none_iff_exists'.mp hkey
  have hstart : (generateStart D dirFd unlockKey publicKeyOut fs).pc =
      .returned (.error .crypto) := by
    simp only [generateStart, if_pos hbad]
  rw [cryptoGenerateIdentity, generateRun_returned hstart, hstart] at h
  cases h

/-- The contents of an identity file that has been generated, under any key. -/
theorem openIdentityFile_content (P : DbPrimitives) (S : SignPrimitives) (D : KeyDraws)
    (key other : Key) :
    openIdentityFile P other (identityContent P S D key) =
      P.secretboxOpen other D.nonce (identityCipher P S D key) := by
  rw [openIdentityFile, identityContent, Block.ofBytes_append,
    List.drop_left' D.nonce.toList_length]

/-- What a call of `crypto_load_or_create_salt` in the directory `fs` keeps to, at every step. -/
structure SaltSafe (fs : ConfigDir) (c : SaltCall) : Prop where
  existing : ∀ file, fs.dir saltName = some file →
    c.fs = fs ∧ (c.pc = .returned (.ok ()) → c.salt = fs.data file)
  atomic : Atomic fs c.fs
  nothingLeft : ∀ ret, c.pc = .returned ret → fs.NothingAdded c.fs saltName

/-- What a call of `crypto_generate_identity` in the directory `fs` keeps to, at every step. -/
structure GenerateSafe (fs : ConfigDir) (c : GenerateCall) : Prop where
  atomic : Atomic fs c.fs
  nothingLeft : ∀ ret, c.pc = .returned ret → fs.NothingAdded c.fs identityName

/-- What a call of `crypto_load_identity` returns that opens the file with its key. -/
def LoadsKey (pk : Bytes) (c : LoadCall) : Prop :=
  c.pc = .returned (.ok ()) ∧ c.publicKeyOut = some pk

/-- What it returns under a key that does not open the file. -/
def Rejects (c : LoadCall) : Prop :=
  c.pc = .returned (.error .auth) ∧ c.Zeroed

theorem loadsKey_of_generate_ok (hopen : P.Opens) (hderives : S.Derives)
    (hok : (cryptoGenerateIdentity P S D dirFd unlockKey publicKeyOut fs results).pc =
      .returned (.ok ())) (sk : Block 64) (pk : Key) {results' : List Outcome}
    (hresults : LoadSucceeds results') :
    LoadsKey (cryptoGenerateIdentity P S D dirFd unlockKey publicKeyOut fs results).publicKeyOut
      (cryptoLoadIdentity P S
        (cryptoGenerateIdentity P S D dirFd unlockKey publicKeyOut fs results).fs dirFd unlockKey
        (some sk) (some pk) results') := by
  obtain ⟨hfd, key, rfl⟩ := arguments_of_generate_ok hok
  obtain ⟨hpk, hholds⟩ :=
    (generateStage_run P S D fs dirFd (some key) publicKeyOut results).of_ok hok
  have hbox : openIdentityFile P key (identityContent P S D key) =
      some (S.keypair D.seed).2.toList := openIdentityFile_sealed hopen key _ _
  rw [load_of_succeeds hfd sk pk hholds (identityContent_length P S D key) hresults, hpk]
  simp only [LoadsKey, loadParse, hbox, Option.getD_some, hderives D.seed, and_self]

theorem rejects_of_generate_ok {key : Key}
    (hok : (cryptoGenerateIdentity P S D dirFd (some key) publicKeyOut fs results).pc =
      .returned (.ok ())) (sk : Block 64) (pk : Key) {results' : List Outcome}
    (hresults : LoadSucceeds results') {other : Key}
    (hother : P.secretboxOpen other D.nonce (identityCipher P S D key) = none) :
    Rejects (cryptoLoadIdentity P S
      (cryptoGenerateIdentity P S D dirFd (some key) publicKeyOut fs results).fs dirFd (some other)
      (some sk) (some pk) results') := by
  obtain ⟨hfd, -⟩ := arguments_of_generate_ok hok
  obtain ⟨-, hholds⟩ := (generateStage_run P S D fs dirFd (some key) publicKeyOut results).of_ok hok
  rw [← openIdentityFile_content] at hother
  rw [load_of_succeeds hfd sk pk hholds (identityContent_length P S D key) hresults]
  simp only [loadParse, Option.getD_some, hother]
  exact ⟨rfl, rfl, rfl⟩

/-- Key files are written atomically, nothing is left behind, and an identity that has been
generated is loaded with its key and with no other, unless a call of `crypto_load_identity` itself
fails; then it returns an error and leaves nothing in its buffers. -/
theorem key_files_written_atomically (hopen : P.Opens) (hderives : S.Derives) (D : KeyDraws)
    (fs : ConfigDir) (dirFd : Int) :
    (∀ salt results, SaltSafe fs (cryptoLoadOrCreateSalt D salt dirFd fs results)) ∧
    (∀ salt errno results,
      (cryptoLoadOrCreateSalt D salt dirFd fs (.fail errno :: results)).fs = fs ∧
        (cryptoLoadOrCreateSalt D salt dirFd fs (.fail errno :: results)).salt =
          (salt.getD (.zero 16)).toList ∧
        ∃ err, (cryptoLoadOrCreateSalt D salt dirFd fs (.fail errno :: results)).pc =
          .returned (.error err)) ∧
    (∀ key out results,
      GenerateSafe fs (cryptoGenerateIdentity P S D dirFd key out fs results)) ∧
    (∀ key out results,
      (cryptoGenerateIdentity P S D dirFd (some key) out fs results).pc = .returned (.ok ()) →
      ∀ sk pk results', LoadSucceeds results' →
        LoadsKey (cryptoGenerateIdentity P S D dirFd (some key) out fs results).publicKeyOut
          (cryptoLoadIdentity P S
            (cryptoGenerateIdentity P S D dirFd (some key) out fs results).fs dirFd (some key)
            (some sk) (some pk) results') ∧
        ∀ other, P.secretboxOpen other D.nonce (identityCipher P S D key) = none →
          Rejects (cryptoLoadIdentity P S
            (cryptoGenerateIdentity P S D dirFd (some key) out fs results).fs dirFd (some other)
            (some sk) (some pk) results')) ∧
    ∀ key sk pk results err,
      (cryptoLoadIdentity P S fs dirFd key (some sk) (some pk) results).pc =
        .returned (.error err) →
      (cryptoLoadIdentity P S fs dirFd key (some sk) (some pk) results).Zeroed := by
  refine ⟨fun salt results => ?_, fun salt errno results => ?_, fun key out results => ?_,
    fun key out results hok sk pk results' hresults => ⟨?_, fun other hother => ?_⟩,
    fun key sk pk results err herr => ?_⟩
  · have hstage := saltStage_run D fs dirFd salt results
    exact ⟨fun file hfile => hstage.existing hfile, hstage.atomic,
      fun ret hret => hstage.nothingAdded hret⟩
  · exact salt_open_failed D salt dirFd fs errno results
  · have hstage := generateStage_run P S D fs dirFd key out results
    exact ⟨hstage.atomic, fun ret hret => hstage.nothingAdded hret⟩
  · exact loadsKey_of_generate_ok hopen hderives hok sk pk hresults
  · exact rejects_of_generate_ok hok sk pk hresults hother
  · exact (loadInv_run dirFd key sk pk results).zeroed err herr

end Files

/-- The secret key is the seed and the public key. -/
def sampleSign : SignPrimitives where
  keypair seed := (seed, Block.ofBytes 64 (seed.toList ++ seed.toList))
  skToPk sk := some (Block.ofBytes 32 (sk.drop 32))

theorem sampleSign_derives : sampleSign.Derives := by
  intro seed
  have hlen : (seed.toList ++ seed.toList).length = 64 := by simp
  have hsk : (Block.ofBytes 64 (seed.toList ++ seed.toList)).toList =
      seed.toList ++ seed.toList := by
    rw [Block.toList_ofBytes_of_le hlen.ge, List.take_of_length_le hlen.le]
  simp only [sampleSign, hsk, List.drop_left' seed.toList_length, Block.ofBytes_toList]

/-- The draws of one process. -/
def sampleKeyDraws : KeyDraws where
  pid := 4711
  rnd := Block.ofBytes 4 [1, 2, 3, 4]
  salt := Block.ofBytes 16 [9]
  seed := Block.ofBytes 32 [7, 8]
  nonce := Block.ofBytes 24 [5]

def emptyConfigDir : ConfigDir where
  dir := fun _ => none
  data := fun _ => []
  next := 0
  fresh := by simp

/-- A short write, an interrupted one, and a directory that cannot be synced. -/
def sampleGenerateResults : List Outcome :=
  [.ok 0, .ok 0, .ok 0, .ok 0, .ok 10, .fail .eintr, .ok 100, .ok 50, .ok 50, .fail .eintr, .ok 0,
    .ok 0, .fail .einval]

/-- `openat`, `fstat`, `sodium_malloc`, and a `read` that is interrupted and then short. -/
def sampleLoadResults : List Outcome :=
  [.ok 0, .ok 0, .ok 0, .fail .eintr, .ok 100, .ok 100]

/-- The call of `crypto_generate_identity` with these results. -/
def sampleGenerate : GenerateCall :=
  cryptoGenerateIdentity sampleDbPrimitives sampleSign sampleKeyDraws 3
    (some (Block.ofBytes 32 [1])) (some (.zero 32)) emptyConfigDir sampleGenerateResults

theorem key_files_written_atomically_first_run :
    sampleGenerate.pc = .returned (.ok ()) ∧
      LoadsKey sampleGenerate.publicKeyOut
        (cryptoLoadIdentity sampleDbPrimitives sampleSign sampleGenerate.fs 3
          (some (Block.ofBytes 32 [1])) (some (.zero 64)) (some (.zero 32)) sampleLoadResults) ∧
      Rejects (cryptoLoadIdentity sampleDbPrimitives sampleSign sampleGenerate.fs 3
        (some (Block.ofBytes 32 [2])) (some (.zero 64)) (some (.zero 32)) sampleLoadResults) := by
  have hok : sampleGenerate.pc = .returned (.ok ()) := by decide +kernel
  have hload : LoadSucceeds sampleLoadResults :=
    ⟨0, 0, 0, [.fail .eintr, .ok 100, .ok 100], rfl, by decide, by decide⟩
  obtain ⟨-, -, -, hround, -⟩ := key_files_written_atomically sampleDbPrimitives_opens
    sampleSign_derives sampleKeyDraws emptyConfigDir 3
  obtain ⟨hloads, hrejects⟩ := hround (Block.ofBytes 32 [1]) (some (.zero 32))
    sampleGenerateResults hok (.zero 64) (.zero 32) sampleLoadResults hload
  exact ⟨hok, hloads, hrejects (Block.ofBytes 32 [2]) (by decide +kernel)⟩

/-- The identity has been generated, and `openat` of `crypto_load_identity` fails. -/
theorem key_files_load_fails :
    sampleGenerate.pc = .returned (.ok ()) ∧
      (cryptoLoadIdentity sampleDbPrimitives sampleSign sampleGenerate.fs 3
        (some (Block.ofBytes 32 [1])) (some (.zero 64)) (some (.zero 32))
        [.fail (.other 24)]).pc = .returned (.error .io) := by
  constructor
  · decide +kernel
  · rfl

end Boot
end Noxtor
