import Noxtor.Common
import Noxtor.Lib.CallFilter

/-!
# The seccomp policy

`seccomp_policy_load` and where it is called: before `main`, behind the start of Tor, and at the
beginning of the event loop.  Each call builds a filter from the table `blacklist` and from rules
on arguments, and the kernel stacks it on the filters of the calls before.

A rule compares all 64 bits of an argument.  The kernel reads the family of a socket from the lower
half, so a family that the policy names is refused only if the upper half is zero.
-/

namespace Noxtor
namespace Boot

open CallFilter

/-- The system calls that the policy names. -/
inductive Sys where
  | processVmReadv | processVmWritev | ptrace | ioUringSetup | ioUringEnter | ioUringRegister
  | userfaultfd | perfEventOpen | bpf | kexecFileLoad | finitModule | personality
  | execve | execveat | uselib | fork | vfork | acct | pidfdOpen | processMadvise | kcmp
  | ioSetup | ioDestroy | ioSubmit | ioCancel | ioGetevents | ioPgetevents
  | mount | umount2 | fsopen | fsconfig | fsmount | fspick | moveMount | openTree | umount
  | pivotRoot | openByHandleAt | reboot | sethostname | setdomainname | kexecLoad
  | initModule | deleteModule | unshare | setns | swapon | swapoff | requestKey | addKey | keyctl
  | nfsservctl | quotactl
  | symlink | symlinkat | link | linkat | chmod | fchmod | fchmodat | chown | fchown | fchownat
  | sendto | mknod | mknodat | modifyLdt | iopl | ioperm | syslog
  | pkeyMprotect | pkeyAlloc | pkeyFree | fchmodat2 | nameToHandleAt | pidfdGetfd | memfdSecret
  | vmsplice | mountSetattr | openTreeAttr | fileSetattr | splice | shmget | shmat | shmctl
  | msgget | msgsnd | msgrcv | sendmsg | recvmsg | sendmmsg | recvmmsg | msgctl | memfdCreate
  | statmount | listmount
  | clone | clone3 | archPrctl | prctl | socket | mprotect | mmap
deriving DecidableEq

/-- `SCMP_A0` to `SCMP_A5`. -/
inductive Arg where
  | a0 | a1 | a2 | a3 | a4 | a5
deriving DecidableEq

/-- A call as the kernel sees it: whether it comes through the native interface of x86-64, its
number as far as the policy names it, and its arguments. -/
structure Syscall where
  native : Bool
  sys : Option Sys
  arg : Arg → UInt64

/-- `SCMP_CMP_EQ` and `SCMP_CMP_MASKED_EQ`. -/
inductive Comparison where
  | eq (arg : Arg) (datum : UInt64)
  | maskedEq (arg : Arg) (mask datum : UInt64)
deriving DecidableEq

/-- Whether a comparison holds. -/
def Comparison.holds (arg : Arg → UInt64) : Comparison → Bool
  | .eq i datum => arg i = datum
  | .maskedEq i mask datum => arg i &&& mask = datum

/-- `SCMP_ACT_ALLOW`, `SCMP_ACT_ERRNO(ENOSYS)` and `SCMP_ACT_KILL_PROCESS`, in the order in which
the kernel lets one of them win. -/
inductive Act where
  | allow
  | enosys
  | killProcess
deriving DecidableEq

/-- The precedence of an action. -/
def Act.rank : Act → Nat
  | .allow => 0
  | .enosys => 1
  | .killProcess => 2

theorem Act.rank_injective : Function.Injective Act.rank := by
  intro a b h
  cases a <;> cases b <;> first | rfl | cases h

instance : LinearOrder Act := LinearOrder.lift' Act.rank Act.rank_injective

instance : OrderBot Act where
  bot := .allow
  bot_le a := Nat.zero_le a.rank

theorem Act.le_killProcess (a : Act) : a ≤ .killProcess := by
  change a.rank ≤ 2
  cases a <;> decide

/-- A rule of `seccomp_rule_add`, with at most one comparison. -/
structure Rule where
  act : Act
  sys : Sys
  cond : Option Comparison
deriving DecidableEq

/-- Whether a rule applies to a call. -/
def Rule.applies (r : Rule) (c : Syscall) : Bool :=
  c.sys = some r.sys ∧ (r.cond.all fun cmp => cmp.holds c.arg) = true

/-- What the build and its headers decide: `NDEBUG`, the macros of the shadow stack, and the
numbers that only newer headers have. -/
structure Build where
  ndebug : Bool
  shstk : Bool
  newer : Sys → Bool

/-- The entries that stand between `#if` and `#endif`. -/
def Build.compiled (B : Build) : Sys → Bool
  | .ptrace => B.ndebug
  | .openTreeAttr => B.newer .openTreeAttr
  | .fileSetattr => B.newer .fileSetattr
  | .statmount => B.newer .statmount
  | .listmount => B.newer .listmount
  | _ => true

/-- `blacklist`, with the stage of each entry. -/
def blacklist : List (Sys × Nat) :=
  [(.processVmReadv, 1), (.processVmWritev, 1), (.ptrace, 1), (.ioUringSetup, 1),
    (.ioUringEnter, 1), (.ioUringRegister, 1), (.userfaultfd, 1), (.perfEventOpen, 1), (.bpf, 1),
    (.kexecFileLoad, 1), (.finitModule, 1), (.personality, 1),
    (.execve, 2), (.execveat, 2), (.uselib, 2), (.fork, 2), (.vfork, 2), (.acct, 2),
    (.pidfdOpen, 2), (.processMadvise, 2), (.kcmp, 2), (.ioSetup, 2), (.ioDestroy, 2),
    (.ioSubmit, 2), (.ioCancel, 2), (.ioGetevents, 2), (.ioPgetevents, 2), (.mount, 2),
    (.umount2, 2), (.fsopen, 2), (.fsconfig, 2), (.fsmount, 2), (.fspick, 2), (.moveMount, 2),
    (.openTree, 2), (.umount, 2), (.pivotRoot, 2), (.openByHandleAt, 2), (.reboot, 2),
    (.sethostname, 2), (.setdomainname, 2), (.kexecLoad, 2), (.initModule, 2),
    (.deleteModule, 2), (.unshare, 2), (.setns, 2), (.swapon, 2), (.swapoff, 2),
    (.requestKey, 2), (.addKey, 2), (.keyctl, 2), (.nfsservctl, 2), (.quotactl, 2),
    (.symlink, 3), (.symlinkat, 3), (.link, 3), (.linkat, 3), (.chmod, 3), (.fchmod, 3),
    (.fchmodat, 3), (.chown, 3), (.fchown, 3), (.fchownat, 3), (.sendto, 3), (.mknod, 3),
    (.mknodat, 3), (.modifyLdt, 3), (.iopl, 3), (.ioperm, 3), (.syslog, 3),
    (.pkeyMprotect, 2), (.pkeyAlloc, 2), (.pkeyFree, 2), (.fchmodat2, 3), (.nameToHandleAt, 3),
    (.pidfdGetfd, 3), (.memfdSecret, 3), (.vmsplice, 3), (.mountSetattr, 3), (.openTreeAttr, 3),
    (.fileSetattr, 3), (.splice, 3), (.shmget, 2), (.shmat, 2), (.shmctl, 2), (.msgget, 3),
    (.msgsnd, 3), (.msgrcv, 3), (.sendmsg, 3), (.recvmsg, 3), (.sendmmsg, 3), (.recvmmsg, 3),
    (.msgctl, 3), (.memfdCreate, 3), (.statmount, 3), (.listmount, 3)]

/-- A rule without a comparison that kills. -/
def killRule (s : Sys) : Rule :=
  { act := .killProcess, sys := s, cond := none }

/-- A rule that kills for one value of the first argument. -/
def killFirst (s : Sys) (datum : UInt64) : Rule :=
  { act := .killProcess, sys := s, cond := some (.eq .a0 datum) }

/-- `CLONE_THREAD`. -/
def cloneThread : UInt64 := 0x00010000

/-- `PROT_EXEC`. -/
def protExec : UInt64 := 4

/-- `clone` is refused unless it makes a thread. -/
def cloneRule : Rule :=
  { act := .killProcess, sys := .clone, cond := some (.maskedEq .a0 cloneThread 0) }

/-- `clone3` fails, so that the C library goes back to `clone`. -/
def clone3Rule : Rule :=
  { act := .enosys, sys := .clone3, cond := none }

/-- A rule that kills where the protection in the third argument has `PROT_EXEC`. -/
def killExec (s : Sys) : Rule :=
  { act := .killProcess, sys := s, cond := some (.maskedEq .a2 protExec protExec) }

/-- The options of `arch_prctl` that are refused: `ARCH_SHSTK_DISABLE` and `ARCH_SHSTK_UNLOCK`. -/
def shstkOptions (B : Build) : List UInt64 :=
  if B.shstk then [0x5002, 0x5004] else []

/-- The options of `prctl` that are refused, from `PR_SET_DUMPABLE` to `PR_SET_MDWE`. -/
def blockedOptions : List UInt64 := [4, 0x59616d61, 14, 35, 26, 28, 59, 65]

/-- The families of stage 2: `AF_PACKET`, `AF_INET`, `AF_INET6`, `AF_NETLINK`, `AF_CAN`, `AF_KEY`,
`AF_NFC`, `AF_APPLETALK`, `AF_IPX`. -/
def blockedDomains : List UInt64 := [17, 2, 10, 16, 29, 15, 39, 5, 4]

/-- The families of stage 3: `AF_XDP`, `AF_ALG`, `AF_VSOCK`, `AF_BLUETOOTH`, `AF_SMC`, `AF_RDS`,
`AF_QIPCRTR`. -/
def lateDomains : List UInt64 := [44, 38, 40, 31, 43, 21, 42]

/-- `add_socket_domain_rule`: the rule that it adds. -/
def socketDomainRule (domain : UInt64) : Rule :=
  killFirst .socket domain

/-- A rule, and whether `-EDOM` is tolerated when it is added. -/
abbrev PolicyRule := Rule × Bool

/-- The rules of the table for a stage. -/
def blacklistRules (B : Build) (stage : Nat) : List PolicyRule :=
  (blacklist.filter fun e => B.compiled e.1 && e.2 ≤ stage).map fun e => (killRule e.1, true)

/-- The rules that stage 2 adds on arguments. -/
def stage2Rules (B : Build) : List PolicyRule :=
  (cloneRule, false) :: (clone3Rule, true) ::
  ((shstkOptions B).map (killFirst .archPrctl) ++
    blockedOptions.map (killFirst .prctl) ++ blockedDomains.map socketDomainRule ++
    [killExec .mprotect, killExec .mmap]).map fun r => (r, true)

/-- The rules that stage 3 adds. -/
def stage3Rules : List PolicyRule :=
  (killRule .clone :: lateDomains.map socketDomainRule).map fun r => (r, true)

/-- All rules of a stage, in the order of the source. -/
def policyRules (B : Build) (stage : Nat) : List PolicyRule :=
  blacklistRules B stage ++ (if stage ≥ 2 then stage2Rules B else []) ++
    (if stage ≥ 3 then stage3Rules else [])

/-- What libseccomp answers during one call of `seccomp_policy_load`: whether there is a context,
and the return values. -/
structure SeccompLib where
  init : Bool
  badarch : Int
  tsync : Int
  ruleAdd : Rule → Int
  load : Int

/-- `-EDOM`. -/
def negEdom : Int := -33

/-- The rules that get into the context; the first one that fails ends the function. -/
def addRules (lib : SeccompLib) : List PolicyRule → Except NoxErr (List Rule)
  | [] => .ok []
  | (r, tolerant) :: rs =>
      let rc := lib.ruleAdd r
      if rc = 0 then
        match addRules lib rs with
        | .ok added => .ok (r :: added)
        | .error e => .error e
      else if tolerant ∧ rc = negEdom then addRules lib rs
      else .error .crypto

/-- `seccomp_policy_load`: the rules of the filter that is loaded. -/
def seccompPolicyLoad (B : Build) (lib : SeccompLib) (stage : Nat) : Except NoxErr (List Rule) :=
  if !lib.init then .error .crypto
  else if lib.badarch < 0 then .error .crypto
  else if lib.tsync < 0 then .error .crypto
  else
    match addRules lib (policyRules B stage) with
    | .error e => .error e
    | .ok rules => if lib.load < 0 then .error .crypto else .ok rules

/-- The verdict of a loaded filter; a call of another architecture is a `badarch`. -/
def filterVerdict (rules : List Rule) (c : Syscall) : Act :=
  if c.native then rulesVerdict Rule.applies Rule.act c rules else .killProcess

/-- The process: how many filters have been loaded, the filters with the newest in front, whether a
load has failed, whether the kernel lets the process live, and the calls that were carried out,
each with the stage it was made at.  The event loop runs at stage 3. -/
structure Process where
  stage : Nat := 0
  filters : List (List Rule) := []
  ending : Bool := false
  alive : Bool := true
  made : List (Nat × Syscall) := []

/-- What happens: the program reaches the next call of `seccomp_policy_load`, or any of its threads
makes a system call. -/
inductive ProcessEvent where
  | load (lib : SeccompLib)
  | call (c : Syscall)

/-- The verdict of the kernel. -/
def Process.verdict (p : Process) (c : Syscall) : Act :=
  stackVerdict c (p.filters.map filterVerdict)

/-- One event.  Where a load fails the program goes on to its end and loads nothing more. -/
def processStep (B : Build) (p : Process) : ProcessEvent → Process
  | .load lib =>
      if !p.alive || p.ending || p.stage ≥ 3 then p
      else
        match seccompPolicyLoad B lib (p.stage + 1) with
        | .ok rules => { p with stage := p.stage + 1, filters := rules :: p.filters }
        | .error _ => { p with ending := true }
  | .call c =>
      if !p.alive then p
      else
        match p.verdict c with
        | .allow => { p with made := p.made ++ [(p.stage, c)] }
        | .enosys => p
        | .killProcess => { p with alive := false }

/-- A run of the process. -/
def processRun (B : Build) (p : Process) (evs : List ProcessEvent) : Process :=
  evs.foldl (processStep B) p

/-- The policy of a stage on its own. -/
def policyVerdict (B : Build) (stage : Nat) (c : Syscall) : Act :=
  if stage = 0 then .allow else filterVerdict ((policyRules B stage).map Prod.fst) c

/-- The kernel has the call. -/
def Syscall.Possible (callable : Sys → Prop) (c : Syscall) : Prop :=
  ∀ s, c.sys = some s → callable s

/-- `-EDOM` is only returned for a call that the architecture does not have, and only calls that
it has are made. -/
def ProcessEvent.Lawful (callable : Sys → Prop) : ProcessEvent → Prop
  | .load lib => ∀ r, lib.ruleAdd r = negEdom → ¬ callable r.sys
  | .call c => c.Possible callable

section Stages

variable {B : Build} {callable : Sys → Prop} {lib : SeccompLib} {c : Syscall} {k m : Nat}

/-- What gets into the context. -/
theorem addRules_added {rs : List PolicyRule} {added : List Rule}
    (hlib : (ProcessEvent.load lib).Lawful callable) (h : addRules lib rs = .ok added) :
    added ⊆ rs.map Prod.fst ∧ ∀ r ∈ rs.map Prod.fst, r ∉ added → ¬ callable r.sys := by
  induction rs generalizing added with
  | nil =>
      cases h
      exact ⟨fun _ hr => hr, fun r hr => absurd hr List.not_mem_nil⟩
  | cons e rs ih =>
      obtain ⟨r, tolerant⟩ := e
      unfold addRules at h
      dsimp only at h
      rw [List.map_cons]
      split at h
      next h0 =>
        cases hrest : addRules lib rs with
        | error e =>
            rw [hrest] at h
            cases h
        | ok rest =>
            rw [hrest] at h
            cases h
            obtain ⟨hsub, hout⟩ := ih hrest
            refine ⟨List.cons_subset_cons r hsub, fun r' hr' hnot => ?_⟩
            rw [List.mem_cons, not_or] at hnot
            exact hout r' ((List.mem_cons.1 hr').resolve_left hnot.1) hnot.2
      next h0 =>
        split at h
        next hdom =>
          obtain ⟨hsub, hout⟩ := ih h
          refine ⟨fun r' hr' => List.mem_cons_of_mem r (hsub hr'), fun r' hr' hnot => ?_⟩
          rcases List.mem_cons.1 hr' with rfl | hr'
          · exact hlib r' hdom.2
          · exact hout r' hr' hnot
        next => cases h

/-- A load that succeeds has gone through all the rules. -/
theorem seccompPolicyLoad_ok {rules : List Rule}
    (h : seccompPolicyLoad B lib k = .ok rules) :
    addRules lib (policyRules B k) = .ok rules := by
  unfold seccompPolicyLoad at h
  split at h
  next => cases h
  next =>
    split at h
    next => cases h
    next =>
      split at h
      next => cases h
      next =>
        cases hadd : addRules lib (policyRules B k) with
        | error e =>
            rw [hadd] at h
            cases h
        | ok added =>
            rw [hadd] at h
            dsimp only at h
            split at h
            next => cases h
            next => exact h

theorem policyVerdict_pos (hk : 1 ≤ k) :
    policyVerdict B k c = filterVerdict ((policyRules B k).map Prod.fst) c :=
  if_neg (Nat.ne_of_gt hk)

/-- A loaded filter is the policy of its stage. -/
theorem loaded_verdict {rules : List Rule}
    (hlib : (ProcessEvent.load lib).Lawful callable)
    (h : seccompPolicyLoad B lib (k + 1) = .ok rules) (hc : c.Possible callable) :
    filterVerdict rules c = policyVerdict B (k + 1) c := by
  obtain ⟨hsub, hout⟩ := addRules_added hlib (seccompPolicyLoad_ok h)
  rw [policyVerdict_pos (Nat.succ_pos k)]
  unfold filterVerdict
  rw [rulesVerdict_eq hsub fun r hr hnot => ?_]
  unfold Rule.applies
  rw [decide_eq_false_iff_not]
  exact fun happ => hout r hr hnot (hc r.sys happ.1)

theorem policyRules_mono (h : k ≤ m) : policyRules B k ⊆ policyRules B m := by
  intro r hr
  unfold policyRules blacklistRules at hr ⊢
  rw [List.mem_append, List.mem_append, List.mem_map] at hr ⊢
  rcases hr with (⟨e, he, rfl⟩ | hr) | hr
  · refine Or.inl (Or.inl ⟨e, ?_, rfl⟩)
    rw [List.mem_filter, Bool.and_eq_true, decide_eq_true_eq] at he ⊢
    exact ⟨he.1, he.2.1, he.2.2.trans h⟩
  · split at hr
    next h2 =>
      rw [if_pos (le_trans h2 h)]
      exact Or.inl (Or.inr hr)
    next => cases hr
  · split at hr
    next h3 =>
      rw [if_pos (le_trans h3 h)]
      exact Or.inr hr
    next => cases hr

/-- A later stage is stricter. -/
theorem policyVerdict_mono (h : k ≤ m) (c : Syscall) :
    policyVerdict B k c ≤ policyVerdict B m c := by
  rcases Nat.eq_zero_or_pos k with rfl | hk
  · exact bot_le
  · rw [policyVerdict_pos hk, policyVerdict_pos (le_trans hk h)]
    unfold filterVerdict
    split
    next => exact rulesVerdict_mono (List.map_subset Prod.fst (policyRules_mono h))
    next => exact le_rfl

/-- The filters of a process: each is what a load of its stage has made. -/
inductive Stacked (B : Build) (callable : Sys → Prop) : Nat → List (List Rule) → Prop
  | none : Stacked B callable 0 []
  | load {k : Nat} {fs : List (List Rule)} {lib : SeccompLib} {rules : List Rule} :
      (ProcessEvent.load lib).Lawful callable → seccompPolicyLoad B lib (k + 1) = .ok rules →
      Stacked B callable k fs → Stacked B callable (k + 1) (rules :: fs)

/-- The newest filter speaks for the stack. -/
theorem Stacked.verdict {fs : List (List Rule)}
    (h : Stacked B callable k fs) (hc : c.Possible callable) :
    stackVerdict c (fs.map filterVerdict) = policyVerdict B k c := by
  induction h with
  | none => rfl
  | load hlib hload hfs ih =>
      have hnew := loaded_verdict hlib hload hc
      rw [List.map_cons, stackVerdict_cons_of_le, hnew]
      rw [ih, hnew]
      exact policyVerdict_mono (Nat.le_succ _) c

end Stages

section Runs

variable {B : Build} {callable : Sys → Prop} {p : Process} {ev : ProcessEvent} {c : Syscall}

/-- What every event keeps: the filters are those of the stages up to now, and a call that was
carried out is one that the policy of its stage allows. -/
structure ProcessInv (B : Build) (callable : Sys → Prop) (p : Process) : Prop where
  stacked : Stacked B callable p.stage p.filters
  allowed : ∀ m ∈ p.made, policyVerdict B m.1 m.2 = .allow

theorem ProcessInv.verdict
    (h : ProcessInv B callable p) (hc : c.Possible callable) :
    p.verdict c = policyVerdict B p.stage c :=
  h.stacked.verdict hc

/-- The step lemma. -/
theorem processStep_inv
    (h : ProcessInv B callable p) (hev : ev.Lawful callable) :
    ProcessInv B callable (processStep B p ev) ∧ p.stage ≤ (processStep B p ev).stage := by
  cases ev with
  | load lib =>
      unfold processStep
      dsimp only
      split
      next => exact ⟨h, le_rfl⟩
      next =>
        cases hload : seccompPolicyLoad B lib (p.stage + 1) with
        | error e => exact ⟨⟨h.stacked, h.allowed⟩, le_rfl⟩
        | ok rules => exact ⟨⟨.load hev hload h.stacked, h.allowed⟩, Nat.le_succ _⟩
  | call c =>
      unfold processStep
      dsimp only
      split
      next => exact ⟨h, le_rfl⟩
      next =>
        cases hv : p.verdict c with
        | enosys => exact ⟨h, le_rfl⟩
        | killProcess => exact ⟨⟨h.stacked, h.allowed⟩, le_rfl⟩
        | allow =>
            refine ⟨⟨h.stacked, fun m hm => ?_⟩, le_rfl⟩
            rcases List.mem_append.1 hm with hm | hm
            · exact h.allowed m hm
            · rw [List.mem_singleton.1 hm, ← h.verdict hev]
              exact hv

theorem processStep_allow
    (halive : p.alive = true) (hv : p.verdict c = .allow) :
    processStep B p (.call c) = { p with made := p.made ++ [(p.stage, c)] } := by
  unfold processStep
  dsimp only
  rw [halive, hv]
  rfl

theorem processStep_kill
    (halive : p.alive = true) (hv : p.verdict c = .killProcess) :
    processStep B p (.call c) = { p with alive := false } := by
  unfold processStep
  dsimp only
  rw [halive, hv]
  rfl

/-- The run lemma. -/
theorem processRun_inv {evs : List ProcessEvent}
    (h : ProcessInv B callable p) (hevs : ∀ ev ∈ evs, ev.Lawful callable) :
    ProcessInv B callable (processRun B p evs) ∧ p.stage ≤ (processRun B p evs).stage := by
  induction evs generalizing p with
  | nil => exact ⟨h, le_rfl⟩
  | cons ev evs ih =>
      obtain ⟨hev, hrest⟩ := List.forall_mem_cons.1 hevs
      obtain ⟨hstep, hle⟩ := processStep_inv h hev
      obtain ⟨hrun, hle'⟩ := ih hstep hrest
      exact ⟨hrun, hle.trans hle'⟩

theorem processStart_inv : ProcessInv B callable {} where
  stacked := .none
  allowed := fun _ hm => absurd hm List.not_mem_nil

end Runs

/-- The call makes a new process. -/
def StartsProcess (c : Syscall) : Prop :=
  c.sys = some .fork ∨ c.sys = some .vfork ∨ c.sys = some .clone3 ∨
    c.sys = some .clone ∧ c.arg .a0 &&& cloneThread = 0

/-- The call runs a program or makes memory executable. -/
def GainsExec (c : Syscall) : Prop :=
  c.sys ∈ [Sys.execve, .execveat, .uselib, .pkeyMprotect, .shmat, .personality].map some ∨
    (c.sys = some .mprotect ∨ c.sys = some .mmap) ∧ c.arg .a2 &&& protExec ≠ 0

/-- The calls that a stage refuses by their first argument. -/
def ByFirst (s : Sys) : Prop :=
  s = .socket ∨ s = .prctl ∨ s = .archPrctl

/-- The values of the first argument that a stage refuses. -/
def refusedFirst (B : Build) (stage : Nat) : Sys → List UInt64
  | .socket =>
      (if stage ≥ 2 then blockedDomains else []) ++ (if stage ≥ 3 then lateDomains else [])
  | .prctl => if stage ≥ 2 then blockedOptions else []
  | .archPrctl => if stage ≥ 2 then shstkOptions B else []
  | _ => []

/-- An argument of type `int`, as the kernel takes it from a register. -/
def intArg (a : UInt64) : UInt32 :=
  a.toUInt32

section Refusals

variable {B : Build} {c : Syscall} {k n : Nat} {r : Rule} {s : Sys} {d : UInt64}

theorem applies_of (hc : c.sys = some r.sys) (hcond : (r.cond.all fun q => q.holds c.arg) = true) :
    r.applies c = true :=
  decide_eq_true ⟨hc, hcond⟩

/-- A rule that applies and kills. -/
theorem policyVerdict_kill
    (hk : 1 ≤ k) (hr : r ∈ (policyRules B k).map Prod.fst) (hc : c.sys = some r.sys)
    (hcond : (r.cond.all fun q => q.holds c.arg) = true) (hact : r.act = .killProcess) :
    policyVerdict B k c = .killProcess := by
  rw [policyVerdict_pos hk]
  unfold filterVerdict
  split
  next =>
    have hle : r.act ≤ rulesVerdict Rule.applies Rule.act c _ :=
      le_rulesVerdict hr (applies_of hc hcond)
    rw [hact] at hle
    exact le_antisymm (Act.le_killProcess _) hle
  next => rfl

/-- An entry of the table. -/
theorem policyVerdict_blacklist
    (hmem : (s, n) ∈ blacklist) (hB : B.compiled s = true) (hn : 1 ≤ n) (hk : n ≤ k)
    (hc : c.sys = some s) :
    policyVerdict B k c = .killProcess := by
  refine policyVerdict_kill (r := killRule s) (hn.trans hk) ?_ hc rfl rfl
  refine List.mem_map.2 ⟨(killRule s, true), ?_, rfl⟩
  unfold policyRules blacklistRules
  rw [List.mem_append, List.mem_append, List.mem_map]
  refine Or.inl (Or.inl ⟨(s, n), ?_, rfl⟩)
  rw [List.mem_filter, Bool.and_eq_true, decide_eq_true_eq]
  exact ⟨hmem, hB, hk⟩

theorem mem_policyRules_two (hk : 2 ≤ k) (hr : r ∈ (stage2Rules B).map Prod.fst) :
    r ∈ (policyRules B k).map Prod.fst := by
  unfold policyRules
  rw [if_pos hk, List.map_append, List.map_append, List.mem_append, List.mem_append]
  exact Or.inl (Or.inr hr)

theorem mem_policyRules_three (hk : 3 ≤ k) (hr : r ∈ stage3Rules.map Prod.fst) :
    r ∈ (policyRules B k).map Prod.fst := by
  unfold policyRules
  rw [if_pos hk, List.map_append, List.mem_append]
  exact Or.inr hr

theorem mem_stage2Rules :
    r ∈ (stage2Rules B).map Prod.fst ↔ r = cloneRule ∨ r = clone3Rule ∨
      (∃ d ∈ shstkOptions B, r = killFirst .archPrctl d) ∨
      (∃ d ∈ blockedOptions, r = killFirst .prctl d) ∨
      (∃ d ∈ blockedDomains, r = killFirst .socket d) ∨
      r = killExec .mprotect ∨ r = killExec .mmap := by
  simp only [stage2Rules, List.map_cons, List.map_map, List.map_append, Function.comp_def,
    socketDomainRule, List.map_nil, List.mem_cons, List.mem_append, List.mem_map, List.not_mem_nil,
    or_false, or_assoc, eq_comm]

theorem mem_stage3Rules :
    r ∈ stage3Rules.map Prod.fst ↔ r = killRule .clone ∨ ∃ d ∈ lateDomains, r = killFirst .socket d
      := by
  simp only [stage3Rules, List.map_cons, List.map_map, Function.comp_def, socketDomainRule,
    List.mem_cons, List.mem_map, eq_comm]

/-- From stage 2 on no call makes a new process. -/
theorem policyVerdict_startsProcess (hk : 2 ≤ k) (h : StartsProcess c) :
    policyVerdict B k c ≠ .allow := by
  have hpos : 1 ≤ k := (Nat.le_succ 1).trans hk
  rcases h with h | h | h | ⟨h, hflag⟩
  · rw [policyVerdict_blacklist (n := 2) (by decide) rfl (by decide) hk h]
    decide
  · rw [policyVerdict_blacklist (n := 2) (by decide) rfl (by decide) hk h]
    decide
  · rw [policyVerdict_pos hpos]
    unfold filterVerdict
    split
    next =>
      -- `clone3` fails without killing
      have hmem : clone3Rule ∈ (policyRules B k).map Prod.fst :=
        mem_policyRules_two hk (mem_stage2Rules.2 (.inr (.inl rfl)))
      have hle : clone3Rule.act ≤ rulesVerdict Rule.applies Rule.act c _ :=
        le_rulesVerdict hmem (applies_of h rfl)
      intro hallow
      rw [hallow] at hle
      revert hle
      decide
    next => exact Act.noConfusion
  · have hmem : cloneRule ∈ (policyRules B k).map Prod.fst :=
      mem_policyRules_two hk (mem_stage2Rules.2 (.inl rfl))
    rw [policyVerdict_kill hpos hmem h (decide_eq_true hflag) rfl]
    exact Act.noConfusion

/-- A mask of one bit leaves the bit or nothing. -/
theorem and_two_pow (n i : Nat) : n &&& 2 ^ i = if n.testBit i then 2 ^ i else 0 := by
  refine Nat.eq_of_testBit_eq fun j => ?_
  rw [Nat.testBit_and, Nat.testBit_two_pow]
  by_cases hj : i = j
  · subst hj
    split
    next h => simp [h]
    next h => simp [h]
  · split
    next => simp [hj]
    next => simp [hj]

theorem masked_bit (a : UInt64) (h : a &&& protExec ≠ 0) : a &&& protExec = protExec := by
  have hand : (a &&& protExec).toNat = a.toNat &&& 2 ^ 2 := UInt64.toNat_and a protExec
  rw [and_two_pow] at hand
  split at hand
  next => exact UInt64.toNat_inj.1 hand
  next => exact absurd (UInt64.toNat_inj.1 hand) h

/-- The calls of `GainsExec` that are refused whatever their arguments are. -/
theorem exec_entries :
    ∀ s ∈ [Sys.execve, .execveat, .uselib, .pkeyMprotect, .shmat, .personality],
      ((s, 2) ∈ blacklist ∨ (s, 1) ∈ blacklist) ∧ B.compiled s = true := by
  simp only [List.forall_mem_cons]
  refine ⟨⟨by decide, rfl⟩, ⟨by decide, rfl⟩, ⟨by decide, rfl⟩, ⟨by decide, rfl⟩, ⟨by decide, rfl⟩,
    ⟨by decide, rfl⟩, fun _ h => absurd h List.not_mem_nil⟩

theorem killExec_mem (hk : 2 ≤ k) (hs : s = .mprotect ∨ s = .mmap) :
    killExec s ∈ (policyRules B k).map Prod.fst := by
  refine mem_policyRules_two hk (mem_stage2Rules.2 ?_)
  rcases hs with rfl | rfl
  · exact .inr (.inr (.inr (.inr (.inr (.inl rfl)))))
  · exact .inr (.inr (.inr (.inr (.inr (.inr rfl)))))

/-- From stage 2 on no call runs a program or makes memory executable. -/
theorem policyVerdict_gainsExec (hk : 2 ≤ k) (h : GainsExec c) :
    policyVerdict B k c = .killProcess := by
  have hpos : 1 ≤ k := (Nat.le_succ 1).trans hk
  rcases h with h | ⟨h, hflag⟩
  · obtain ⟨s, hs, hc⟩ := List.mem_map.1 h
    obtain ⟨hentry, hB⟩ := exec_entries (B := B) s hs
    rcases hentry with hentry | hentry
    · exact policyVerdict_blacklist hentry hB (Nat.le_succ 1) hk hc.symm
    · exact policyVerdict_blacklist hentry hB le_rfl hpos hc.symm
  · obtain ⟨s, hs, hc⟩ : ∃ s, (s = Sys.mprotect ∨ s = Sys.mmap) ∧ c.sys = some s := by
      rcases h with h | h
      · exact ⟨_, .inl rfl, h⟩
      · exact ⟨_, .inr rfl, h⟩
    have hset := masked_bit (c.arg .a2) hflag
    exact policyVerdict_kill hpos (killExec_mem hk hs) hc (decide_eq_true hset) rfl

/-- At stage 3 there are no new threads either. -/
theorem policyVerdict_clone (hk : 3 ≤ k) (h : c.sys = some .clone) :
    policyVerdict B k c = .killProcess :=
  policyVerdict_kill (r := killRule .clone) (le_trans (by decide) hk)
    (mem_policyRules_three hk (mem_stage3Rules.2 (.inl rfl))) h rfl rfl

theorem blacklist_first : ∀ e ∈ blacklist, ¬ ByFirst e.1 := by
  unfold ByFirst
  decide +kernel

/-- The rules on these calls. -/
theorem policyRules_first
    (hs : ByFirst s) (hr : r ∈ (policyRules B k).map Prod.fst) (hsys : r.sys = s) :
    ∃ d ∈ refusedFirst B k s, r = killFirst s d := by
  subst hsys
  unfold policyRules at hr
  rw [List.map_append, List.map_append, List.mem_append, List.mem_append] at hr
  rcases hr with (hr | hr) | hr
  · -- the table does not mention these calls
    obtain ⟨e, he, rfl⟩ := List.mem_map.1 hr
    obtain ⟨x, hx, rfl⟩ := List.mem_map.1 he
    exact absurd hs (blacklist_first x (List.mem_filter.1 hx).1)
  · split at hr
    next hk =>
      rcases mem_stage2Rules.1 hr with
        rfl | rfl | ⟨d, hd, rfl⟩ | ⟨d, hd, rfl⟩ | ⟨d, hd, rfl⟩ | rfl | rfl
      · rcases hs with h | h | h <;> cases h
      · rcases hs with h | h | h <;> cases h
      · refine ⟨d, ?_, rfl⟩
        change d ∈ if k ≥ 2 then shstkOptions B else []
        rw [if_pos hk]
        exact hd
      · refine ⟨d, ?_, rfl⟩
        change d ∈ if k ≥ 2 then blockedOptions else []
        rw [if_pos hk]
        exact hd
      · refine ⟨d, List.mem_append_left _ ?_, rfl⟩
        rw [if_pos hk]
        exact hd
      · rcases hs with h | h | h <;> cases h
      · rcases hs with h | h | h <;> cases h
    next => cases hr
  · split at hr
    next hk =>
      rcases mem_stage3Rules.1 hr with rfl | ⟨d, hd, rfl⟩
      · rcases hs with h | h | h <;> cases h
      · refine ⟨d, List.mem_append_right _ ?_, rfl⟩
        rw [if_pos hk]
        exact hd
    next => cases hr

theorem killFirst_mem (hs : ByFirst s) (hd : d ∈ refusedFirst B k s) :
    killFirst s d ∈ (policyRules B k).map Prod.fst := by
  rcases hs with rfl | rfl | rfl
  · rcases List.mem_append.1 hd with hd | hd
    · split at hd
      next hk =>
        exact mem_policyRules_two hk (mem_stage2Rules.2
          (.inr (.inr (.inr (.inr (.inl ⟨d, hd, rfl⟩))))))
      next => cases hd
    · split at hd
      next hk => exact mem_policyRules_three hk (mem_stage3Rules.2 (.inr ⟨d, hd, rfl⟩))
      next => cases hd
  · change d ∈ if k ≥ 2 then blockedOptions else [] at hd
    split at hd
    next hk =>
      exact mem_policyRules_two hk (mem_stage2Rules.2 (.inr (.inr (.inr (.inl ⟨d, hd, rfl⟩)))))
    next => cases hd
  · change d ∈ if k ≥ 2 then shstkOptions B else [] at hd
    split at hd
    next hk => exact mem_policyRules_two hk (mem_stage2Rules.2 (.inr (.inr (.inl ⟨d, hd, rfl⟩))))
    next => cases hd

/-- These calls are refused for the listed values, and for no others. -/
theorem policyVerdict_first
    (hs : ByFirst s) (hk : 1 ≤ k) (hc : c.sys = some s) (hn : c.native = true) :
    policyVerdict B k c = if c.arg .a0 ∈ refusedFirst B k s then .killProcess else .allow := by
  split
  next hd =>
    exact policyVerdict_kill hk (killFirst_mem hs hd) hc (decide_eq_true rfl) rfl
  next hd =>
    rw [policyVerdict_pos hk]
    unfold filterVerdict
    rw [if_pos hn]
    refine rulesVerdict_eq_bot_iff.2 fun r hr happ => ?_
    obtain ⟨happ, hcond⟩ := of_decide_eq_true happ
    obtain ⟨d, hmem, rfl⟩ := policyRules_first hs hr (Option.some.inj (happ.symm.trans hc))
    have heq : c.arg .a0 = d := of_decide_eq_true hcond
    rw [← heq] at hmem
    exact absurd hmem hd

/-- A number that fits the lower half of a register. -/
def fitsHalf (d : UInt64) : Bool :=
  d.toNat < 2 ^ 32

theorem shstkOptions_fit : (shstkOptions B).all fitsHalf = true := by
  unfold shstkOptions
  split <;> decide

theorem refusedFirst_fit : (refusedFirst B k s).all fitsHalf = true := by
  unfold refusedFirst
  split
  next =>
    rw [List.all_append]
    split <;> split <;> decide
  next => split <;> decide
  next =>
    split
    next => exact shstkOptions_fit
    next => rfl
  next => rfl

/-- Every value that is refused fits the lower half of a register. -/
theorem refusedFirst_lt (d : UInt64) (hd : d ∈ refusedFirst B k s) : d.toNat < 2 ^ 32 :=
  of_decide_eq_true (List.all_eq_true.1 refusedFirst_fit d hd)

/-- What is compared is the whole register. -/
theorem refusedFirst_iff (a : UInt64) :
    a ∈ refusedFirst B k s ↔
      a.toNat < 2 ^ 32 ∧ intArg a ∈ (refusedFirst B k s).map intArg := by
  refine ⟨fun h => ⟨refusedFirst_lt a h, List.mem_map.2 ⟨a, h, rfl⟩⟩, fun ⟨ha, h⟩ => ?_⟩
  obtain ⟨d, hd, heq⟩ := List.mem_map.1 h
  have hnat : d.toNat % 2 ^ 32 = a.toNat % 2 ^ 32 := congrArg UInt32.toNat heq
  rw [Nat.mod_eq_of_lt (refusedFirst_lt d hd), Nat.mod_eq_of_lt ha] at hnat
  rw [← UInt64.toNat_inj.1 hnat]
  exact hd

end Refusals

/--
In every run the filters that have been stacked decide as the policy of the last stage alone, a
call is never treated more mildly later on, and what was carried out was allowed by the policy of
its time: from stage 2 on no new process, no program and no memory that has been made executable,
and in the event loop no new thread.
-/
theorem calls_follow_policy
    (B : Build) (callable : Sys → Prop) (evs more : List ProcessEvent)
    (hevs : ∀ ev ∈ evs, ev.Lawful callable) (hmore : ∀ ev ∈ more, ev.Lawful callable) :
    let p := processRun B {} evs
    let q := processRun B p more
    (∀ c : Syscall, c.Possible callable →
      p.verdict c = policyVerdict B p.stage c ∧ p.verdict c ≤ q.verdict c) ∧
    (∀ m ∈ q.made, policyVerdict B m.1 m.2 = .allow) ∧
    (∀ m ∈ q.made, m.1 ≥ 2 → ¬ StartsProcess m.2 ∧ ¬ GainsExec m.2) ∧
    (∀ m ∈ q.made, m.1 ≥ 3 → m.2.sys ≠ some .clone) := by
  intro p q
  obtain ⟨hp, -⟩ := processRun_inv (processStart_inv (B := B)) hevs
  obtain ⟨hq, hle⟩ := processRun_inv hp hmore
  refine ⟨fun c hc => ⟨hp.verdict hc, ?_⟩, hq.allowed, fun m hm hk => ⟨fun h => ?_, fun h => ?_⟩,
    fun m hm hk h => ?_⟩
  · rw [hp.verdict hc, hq.verdict hc]
    exact policyVerdict_mono hle c
  · exact policyVerdict_startsProcess hk h (hq.allowed m hm)
  · have hkill := policyVerdict_gainsExec (B := B) hk h
    rw [hq.allowed m hm] at hkill
    cases hkill
  · have hkill := policyVerdict_clone (B := B) hk h
    rw [hq.allowed m hm] at hkill
    cases hkill

/-- A library in which nothing fails. -/
def sampleLib : SeccompLib :=
  { init := true, badarch := 0, tsync := 0, ruleAdd := fun _ => 0, load := 0 }

/-- A release build with all headers. -/
def sampleBuild : Build :=
  { ndebug := true, shstk := true, newer := fun _ => true }

/-- A native call with this first argument. -/
def sampleCall (s : Sys) (first : UInt64) : Syscall :=
  { native := true, sys := some s, arg := fun i => if i = .a0 then first else 0 }

theorem sampleLib_lawful :
    (ProcessEvent.load sampleLib).Lawful fun _ => True := by
  intro r h
  cases h

/-- A program is run at stage 1, a thread is made at stage 2, and one is not made at stage 3. -/
theorem calls_follow_policy_thread :
    let p := processRun sampleBuild {} [.load sampleLib, .call (sampleCall .execve 0),
      .load sampleLib, .call (sampleCall .clone cloneThread)]
    let q := processRun sampleBuild p [.load sampleLib, .call (sampleCall .clone cloneThread)]
    q.made.map Prod.fst = [1, 2] ∧ q.alive = false ∧
      ∀ m ∈ q.made, m.1 ≥ 2 → ¬ StartsProcess m.2 ∧ ¬ GainsExec m.2 := by
  refine ⟨by decide +kernel, by decide +kernel, ?_⟩
  refine (calls_follow_policy sampleBuild (fun _ => True) _ _ ?_ ?_).2.2.1
  · simp only [List.forall_mem_cons]
    exact ⟨sampleLib_lawful, fun _ _ => trivial, sampleLib_lawful, fun _ _ => trivial,
      fun _ h => absurd h List.not_mem_nil⟩
  · simp only [List.forall_mem_cons]
    exact ⟨sampleLib_lawful, fun _ _ => trivial, fun _ h => absurd h List.not_mem_nil⟩

/--
In every run, a native `socket`, `prctl` or `arch_prctl` is carried out unless the kernel reads its
first argument as a value that the stage refuses and the upper half of the register is zero; then
the process is killed.  A refused value gets through under any other upper half.
-/
theorem refused_by_register
    (B : Build) (callable : Sys → Prop) (evs : List ProcessEvent)
    (hevs : ∀ ev ∈ evs, ev.Lawful callable) (s : Sys) (hs : ByFirst s) (c : Syscall)
    (hc : c.sys = some s) (hn : c.native = true) (hpos : callable s) :
    let p := processRun B {} evs
    let q := processStep B p (.call c)
    p.alive = true → p.stage ≥ 1 →
    (q.made = p.made ++ [(p.stage, c)] ↔
      (intArg (c.arg .a0) ∈ (refusedFirst B p.stage s).map intArg → 2 ^ 32 ≤ (c.arg .a0).toNat)) ∧
    (q.alive = false ↔
      intArg (c.arg .a0) ∈ (refusedFirst B p.stage s).map intArg ∧ (c.arg .a0).toNat < 2 ^ 32) := by
  intro p q halive hstage
  obtain ⟨hp, -⟩ := processRun_inv (processStart_inv (B := B)) hevs
  have hverdict : p.verdict c = policyVerdict B p.stage c :=
    hp.verdict fun s' hs' => by rwa [← Option.some.inj (hc.symm.trans hs')]
  rw [policyVerdict_first hs hstage hc hn] at hverdict
  by_cases hd : c.arg .a0 ∈ refusedFirst B p.stage s
  · rw [if_pos hd] at hverdict
    obtain ⟨hlt, hmem⟩ := (refusedFirst_iff _).1 hd
    have hq : q = { p with alive := false } := processStep_kill halive hverdict
    rw [hq]
    refine ⟨⟨fun h => ?_, fun h => absurd (h hmem) (Nat.not_le_of_lt hlt)⟩,
      ⟨fun _ => ⟨hmem, hlt⟩, fun _ => rfl⟩⟩
    have hlen : p.made.length = (p.made ++ [(p.stage, c)]).length := congrArg List.length h
    rw [List.length_append, List.length_singleton] at hlen
    exact absurd hlen (Nat.ne_of_lt (Nat.lt_succ_self _))
  · rw [if_neg hd] at hverdict
    have hbig : intArg (c.arg .a0) ∈ (refusedFirst B p.stage s).map intArg →
        2 ^ 32 ≤ (c.arg .a0).toNat := fun hmem =>
      Nat.le_of_not_lt fun hlt => hd ((refusedFirst_iff _).2 ⟨hlt, hmem⟩)
    have hq : q = { p with made := p.made ++ [(p.stage, c)] } := processStep_allow halive hverdict
    rw [hq]
    refine ⟨⟨fun _ => hbig, fun _ => rfl⟩, ⟨fun h => ?_, fun h => ?_⟩⟩
    · exact absurd (halive.symm.trans h) Bool.noConfusion
    · exact absurd (hbig h.1) (Nat.not_le_of_lt h.2)

/-- An internet socket in the event loop. -/
theorem refused_by_register_inet :
    let p := processRun sampleBuild {} [.load sampleLib, .load sampleLib, .load sampleLib]
    let c := sampleCall .socket 0x100000002
    (processStep sampleBuild p (.call c)).made = p.made ++ [(p.stage, c)] := by
  intro p c
  have hevs : ∀ ev ∈ [ProcessEvent.load sampleLib, .load sampleLib, .load sampleLib],
      ev.Lawful fun _ => True := by
    simp only [List.forall_mem_cons]
    exact ⟨sampleLib_lawful, sampleLib_lawful, sampleLib_lawful,
      fun _ h => absurd h List.not_mem_nil⟩
  exact (refused_by_register sampleBuild (fun _ => True) _ hevs .socket (Or.inl rfl) c rfl rfl
    trivial (by decide +kernel) (by decide +kernel)).1.2 fun _ => by decide +kernel

end Boot
end Noxtor
