import Noxtor.Common
import Noxtor.Lib.FileTree

/-!
# Stale Tor directories

`cleanup_stale_tor_dirs` removes what earlier runs have left in the configuration directory: the
data directories `tor_data_<pid>` and the files `torrc_<pid>` of processes that are gone.

The calls of the program that take a path resolve it in the file tree, through links and `..`; the
calls that take a directory descriptor do the same from that directory.  `rm_rf` mixes the two.
What the calls are not allowed to do is said by the host.
-/

namespace Noxtor
namespace Net

open ByteString FileTree

/-- What a directory entry can be called, `.` and `..` apart. -/
def IsName (b : Bytes) : Prop :=
  b ≠ [] ∧ b ≠ [0x2e] ∧ b ≠ [0x2e, 0x2e] ∧ 0x2f ∉ b ∧ 0 ∉ b

instance (b : Bytes) : Decidable (IsName b) := by
  unfold IsName
  infer_instance

/-- The name of a directory entry. -/
abbrev Name :=
  { b : Bytes // IsName b }

/-- A component of a path. -/
def stepOf (b : Bytes) : Option (Step Name) :=
  if b = [0x2e, 0x2e] then some .up
  else if h : IsName b then some (.into ⟨b, h⟩)
  else none

/-- The steps of a path; empty components and `.` lead nowhere. -/
def stepsOf (path : Bytes) : List (Step Name) :=
  (path.splitOn 0x2f).filterMap stepOf

/-- The file tree, with the owner of each object. -/
abbrev Files :=
  Tree Name Nat

/-- An object of the file tree, by the names on the way from the root. -/
abbrev Place :=
  List Name

inductive KillResult where
  | alive
  | esrch
  | other
deriving DecidableEq, Repr

/-- What the functions find besides the file tree. -/
structure Host where
  configDir : Bytes
  /-- The directory that `configDir` leads to; the way there is not below it. -/
  base : Place
  /-- A directory can be opened for reading. -/
  opens : Place → Bool
  /-- `fdopendir` succeeds. -/
  streams : Place → Bool
  /-- A directory can be searched. -/
  search : Place → Bool
  /-- An object can be removed from its directory. -/
  removes : Place → Bool
  getuid : Nat
  /-- `kill(pid, 0)`. -/
  kill : Int → KillResult
  /-- The first line of `/proc/<pid>/comm`. -/
  comm : Int → Option Bytes

/-- `strtol` in base ten: the value, what is left at `endptr`, and whether `errno` is set. -/
def strtol (str : Bytes) : Int × Bytes × Bool :=
  let s := str.dropWhile fun c => c = 0x20 ∨ (9 ≤ c ∧ c ≤ 13)
  let negative := s.head? = some 0x2d
  let s1 := if s.head? = some 0x2d ∨ s.head? = some 0x2b then s.tail else s
  let digits := s1.takeWhile fun c => 0x30 ≤ c ∧ c ≤ 0x39
  let rest := s1.dropWhile fun c => 0x30 ≤ c ∧ c ≤ 0x39
  let value : Int := digits.foldl (fun n c => 10 * n + (c.toNat - 48)) 0
  if digits = [] then (0, str, false)
  else if negative then
    if -value < -2 ^ 63 then (-2 ^ 63, rest, true) else (-value, rest, false)
  else if value > 2 ^ 63 - 1 then (2 ^ 63 - 1, rest, true)
  else (value, rest, false)

/-- `safe_parse_pid`. -/
def safeParsePid (str : Bytes) : Int :=
  let (pid, rest, errno) := strtol str
  if errno ∨ rest ≠ [] ∨ pid ≤ 0 ∨ pid > 2147483647 then -1 else pid

/-- `is_safe_filename`. -/
def isSafeFilename (name : Bytes) : Bool :=
  !(name = [] || name.contains 0x2f || name = [0x2e] || name = [0x2e, 0x2e])

section Calls

variable (H : Host)

/-- Links that are followed on one way. -/
def maxLinks : Nat := 40

/-- Where a path leads, without following a link at its end. -/
def resolve (path : Bytes) (t : Files) : Option Place :=
  t.walk H.search false maxLinks H.base (stepsOf (path.drop H.configDir.length))

/-- The same from an open directory. -/
def resolveAt (dir : Place) (name : Bytes) (t : Files) : Option Place :=
  t.walk H.search false maxLinks dir (stepsOf name)

/-- `lstat`. -/
def lstat (path : Bytes) (t : Files) : Option (Node Name Nat) :=
  (resolve H path t).bind t.node

/-- `fstatat` with `AT_SYMLINK_NOFOLLOW`. -/
def fstatat (dir : Place) (name : Bytes) (t : Files) : Option (Node Name Nat) :=
  (resolveAt H dir name t).bind t.node

/-- `open` with `O_DIRECTORY` and `O_NOFOLLOW`. -/
def openDir (path : Bytes) (t : Files) : Option Place :=
  (resolve H path t).filter fun dir => t.isDir dir && H.opens dir

/-- What `readdir` delivers. -/
def readdir (dir : Place) (t : Files) : List Bytes :=
  [0x2e] :: [0x2e, 0x2e] :: (t.names dir).map Subtype.val

/-- Anything but a directory is unlinked. -/
def unlinkPlace (q : Place) (t : Files) : Files :=
  if h : t.names q = [] then
    if !t.isDir q && H.removes q then t.remove q h else t
  else t

/-- A directory is removed if it is empty. -/
def rmdirPlace (q : Place) (t : Files) : Files :=
  if h : t.names q = [] then
    if t.isDir q && H.removes q then t.remove q h else t
  else t

/-- `unlink`. -/
def unlink (path : Bytes) (t : Files) : Files :=
  match resolve H path t with
  | none => t
  | some q => unlinkPlace H q t

/-- `unlinkat`. -/
def unlinkat (dir : Place) (name : Bytes) (t : Files) : Files :=
  match resolveAt H dir name t with
  | none => t
  | some q => unlinkPlace H q t

/-- `rmdir`. -/
def rmdir (path : Bytes) (t : Files) : Files :=
  match resolve H path t with
  | none => t
  | some q => rmdirPlace H q t

/-- The body of the loop of `rm_rf`. -/
def rmEntry (recurse : Bytes → Files → Option Files) (path : Bytes) (dir : Place) (t : Files)
    (name : Bytes) : Option Files :=
  if !isSafeFilename name then some t
  else
    match fstatat H dir name t with
    | none => some t
    | some ⟨.dir, _⟩ =>
        let subpath := path ++ [0x2f] ++ name
        if subpath.length < noxPathMax then recurse subpath t else some t
    | some _ => some (unlinkat H dir name t)

/-- `rm_rf`, with so many nested calls at most. -/
def rmRf : Nat → Bytes → Files → Option Files
  | 0, _, _ => none
  | k + 1, path, t =>
      match openDir H path t with
      | none => some (unlink H path t)
      | some dir =>
          if !H.streams dir then some t
          else
            ((readdir dir t).foldlM (rmEntry H (rmRf k) path dir) t).map (rmdir H path)

/-- `is_our_stale_entry`. -/
def isOurStaleEntry (path : Bytes) (pid : Int) (t : Files) : Bool :=
  match lstat H path t with
  | none => false
  | some node =>
      if node.attr ≠ H.getuid then false
      else
        match H.kill pid with
        | .alive =>
            if H.comm pid = some [0x74, 0x6f, 0x72] then false
            else if H.kill pid = .alive then false
            else true
        | .esrch => true
        | .other => false

/-- `"tor_data_"` -/
def torDataName : Bytes := [0x74, 0x6f, 0x72, 0x5f, 0x64, 0x61, 0x74, 0x61, 0x5f]

/-- `"torrc_"` -/
def torrcName : Bytes := [0x74, 0x6f, 0x72, 0x72, 0x63, 0x5f]

/-- What an entry is by its name: whether it is a data directory, and whose. -/
def entryPid (name : Bytes) : Option (Bool × Int) :=
  if name.take 9 = torDataName then some (true, safeParsePid (name.drop 9))
  else if name.take 6 = torrcName then some (false, safeParsePid (name.drop 6))
  else none

/-- The body of the loop of `cleanup_stale_tor_dirs`. -/
def cleanupEntry (k : Nat) (t : Files) (name : Bytes) : Option Files :=
  if !isSafeFilename name then some t
  else
    match entryPid name with
    | none => some t
    | some (isDataDir, pid) =>
        if pid ≤ 0 then some t
        else
          let path := H.configDir ++ [0x2f] ++ name
          if path.length ≥ noxPathMax then some t
          else if path.take H.configDir.length ≠ H.configDir then some t
          else if (path.drop H.configDir.length).head? ≠ none ∧
              (path.drop H.configDir.length).head? ≠ some 0x2f then some t
          else if !isOurStaleEntry H path pid t then some t
          else if isDataDir then rmRf H k path t
          else some (unlink H path t)

/-- `cleanup_stale_tor_dirs`. -/
def cleanupStaleTorDirs (k : Nat) (t : Files) : Option Files :=
  if t.isDir H.base && H.opens H.base && H.streams H.base then
    (readdir H.base t).foldlM (cleanupEntry H k) t
  else some t

end Calls

end Net
end Noxtor
