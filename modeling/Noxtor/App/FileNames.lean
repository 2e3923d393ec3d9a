import Mathlib.Data.List.TakeWhile
import Noxtor.App.ReceivedFiles

/-!
# The names of received files

`sanitize_filename` rewrites a name that the peer has chosen in five passes.  A name that comes
out is safe (`SafeName`), and a safe name is left alone, so a second application changes
nothing.  With the prefix and the suffix of `open_recv_file` a safe name fits the buffers of 300
bytes, so that the name that is recorded is the name of the file that was created.
-/

namespace Noxtor
namespace App

open ByteString Directory

/-- A name of letters, digits, '.', '_' and '-' without ".." and without a dot in front. -/
structure SafeName (maxLen : Nat) (name : Bytes) : Prop where
  ne_nil : name ≠ []
  short : name.length < maxLen
  allowed : ∀ c ∈ name, allowedInName c = true
  noDotDot : ¬ [0x2e, 0x2e] <:+: name
  noLeadingDot : name.head? ≠ some 0x2e

section Passes

variable {name : Bytes}

theorem replaceDotDot_length
    (name : Bytes) :
    (replaceDotDot name).length = name.length := by
  induction name using replaceDotDot.induct with
  | case1 =>
      rfl
  | case2 c =>
      rfl
  | case3 c d rest hdot ih =>
      rw [replaceDotDot, if_pos hdot]
      simp [ih]
  | case4 c d rest h ih =>
      rw [replaceDotDot, if_neg h]
      simp [ih]

theorem replaceLeadingDot_length
    (name : Bytes) :
    (replaceLeadingDot name).length = name.length := by
  cases name with
  | nil =>
      rfl
  | cons c rest =>
      dsimp only [replaceLeadingDot]
      split <;> rfl

/-- The passes over dots write underscores only. -/
theorem replaceDotDot_allowed
    (h : ∀ c ∈ name, allowedInName c = true) :
    ∀ c ∈ replaceDotDot name, allowedInName c = true := by
  induction name using replaceDotDot.induct with
  | case1 =>
      exact h
  | case2 c =>
      exact h
  | case3 c d rest hdot ih =>
      rw [replaceDotDot, if_pos hdot]
      have hrest := ih (fun c hc => h c (by simp [hc]))
      intro c hc
      rcases List.mem_cons.mp hc with rfl | hc
      · decide
      rcases List.mem_cons.mp hc with rfl | hc
      · decide
      · exact hrest c hc
  | case4 c d rest hne ih =>
      rw [replaceDotDot, if_neg hne]
      intro e he
      rcases List.mem_cons.mp he with rfl | he
      · exact h e List.mem_cons_self
      · exact ih (fun c' hc' => h c' (List.mem_cons_of_mem c hc')) e he

theorem replaceLeadingDot_allowed
    (h : ∀ c ∈ name, allowedInName c = true) :
    ∀ c ∈ replaceLeadingDot name, allowedInName c = true := by
  cases name with
  | nil =>
      exact h
  | cons c rest =>
      dsimp only [replaceLeadingDot]
      split
      · intro e he
        rcases List.mem_cons.mp he with rfl | he
        · decide
        · exact h e (List.mem_cons_of_mem c he)
      · exact h

/-- Two dots are next to each other, at the head or further on. -/
theorem dotDot_infix_cons
    (c : UInt8) (rest : Bytes) :
    [0x2e, 0x2e] <:+: c :: rest ↔ (c = 0x2e ∧ rest.head? = some 0x2e) ∨ [0x2e, 0x2e] <:+: rest := by
  rw [List.infix_cons_iff, List.cons_prefix_cons]
  cases rest with
  | nil =>
      simp
  | cons d rest =>
      simp only [List.cons_prefix_cons, List.nil_prefix, and_true, List.head?_cons,
        Option.some.injEq]
      constructor
      · rintro (⟨rfl, rfl⟩ | h)
        · exact Or.inl ⟨rfl, rfl⟩
        · exact Or.inr h
      · rintro (⟨rfl, rfl⟩ | h)
        · exact Or.inl ⟨rfl, rfl⟩
        · exact Or.inr h

/-- What the third pass leaves at the head. -/
theorem replaceDotDot_head
    (c : UInt8) (rest : Bytes) :
    (replaceDotDot (c :: rest)).head? = some 0x5f ∨
      (replaceDotDot (c :: rest)).head? = some c := by
  cases rest with
  | nil =>
      exact Or.inr rfl
  | cons d rest =>
      rw [replaceDotDot]
      split
      · exact Or.inl rfl
      · exact Or.inr rfl

theorem replaceDotDot_noDotDot
    (name : Bytes) :
    ¬ [0x2e, 0x2e] <:+: replaceDotDot name := by
  induction name using replaceDotDot.induct with
  | case1 =>
      simp [replaceDotDot]
  | case2 c =>
      rw [replaceDotDot, dotDot_infix_cons]
      simp
  | case3 c d rest hdot ih =>
      rw [replaceDotDot, if_pos hdot, dotDot_infix_cons, dotDot_infix_cons]
      rintro (⟨h, -⟩ | ⟨h, -⟩ | h)
      · exact absurd h (by decide)
      · exact absurd h (by decide)
      · exact ih h
  | case4 c d rest hne ih =>
      rw [replaceDotDot, if_neg hne, dotDot_infix_cons]
      rintro (⟨rfl, hhead⟩ | h)
      · -- the next character is a dot, so it was one before the pass
        rcases replaceDotDot_head d rest with h | h
        · rw [h] at hhead
          exact absurd hhead (by decide)
        · rw [h] at hhead
          exact hne ⟨rfl, Option.some.inj hhead⟩
      · exact ih h

theorem replaceLeadingDot_noDotDot
    (h : ¬ [0x2e, 0x2e] <:+: name) :
    ¬ [0x2e, 0x2e] <:+: replaceLeadingDot name := by
  cases name with
  | nil =>
      exact h
  | cons c rest =>
      dsimp only [replaceLeadingDot]
      split
      · rw [dotDot_infix_cons] at h ⊢
        rintro (⟨hc, -⟩ | hrest)
        · exact absurd hc (by decide)
        · exact h (Or.inr hrest)
      · exact h

theorem replaceLeadingDot_head
    (name : Bytes) :
    (replaceLeadingDot name).head? ≠ some 0x2e := by
  cases name with
  | nil =>
      simp [replaceLeadingDot]
  | cons c rest =>
      dsimp only [replaceLeadingDot]
      split
      · simp
      · rename_i hc
        simpa using hc

theorem replaceDotDot_eq_self
    (h : ¬ [0x2e, 0x2e] <:+: name) :
    replaceDotDot name = name := by
  induction name using replaceDotDot.induct with
  | case1 =>
      rfl
  | case2 c =>
      rfl
  | case3 c d rest hdot ih =>
      obtain ⟨rfl, rfl⟩ := hdot
      exact absurd (List.prefix_append [0x2e, 0x2e] rest).isInfix h
  | case4 c d rest hne ih =>
      rw [replaceDotDot, if_neg hne, ih (fun hin => h ((dotDot_infix_cons c _).mpr (Or.inr hin)))]

theorem replaceLeadingDot_eq_self
    (h : name.head? ≠ some 0x2e) :
    replaceLeadingDot name = name := by
  cases name with
  | nil =>
      rfl
  | cons c rest =>
      dsimp only [replaceLeadingDot]
      rw [if_neg (by simpa using h)]

theorem afterLastSlash_eq_self
    (h : ∀ c ∈ name, c ≠ 0x2f) :
    afterLastSlash name = name := by
  unfold afterLastSlash
  rw [List.takeWhile_eq_self_iff.mpr, List.reverse_reverse]
  intro c hc
  simpa using h c (List.mem_reverse.mp hc)

end Passes

section Sanitized

variable {maxLen : Nat} {name : Bytes}

/-- The name behind the first two passes. -/
def whitelisted (maxLen : Nat) (name : Bytes) : Bytes :=
  ((afterLastSlash name).take (maxLen - 1)).map fun c => if allowedInName c then c else 0x5f

theorem sanitizeFilename_eq
    (rnd : UInt32) (maxLen : Nat) (name : Bytes) :
    sanitizeFilename rnd maxLen name =
      if replaceLeadingDot (replaceDotDot (whitelisted maxLen name)) = [] then
        ([0x66, 0x69, 0x6c, 0x65, 0x5f] ++ hex8 rnd).take (maxLen - 1)
      else replaceLeadingDot (replaceDotDot (whitelisted maxLen name)) :=
  rfl

theorem whitelisted_allowed
    (maxLen : Nat) (name : Bytes) :
    ∀ c ∈ whitelisted maxLen name, allowedInName c = true := by
  intro c hc
  obtain ⟨d, -, rfl⟩ := List.mem_map.mp hc
  split
  · assumption
  · decide

theorem whitelisted_length
    (hlen : 2 ≤ maxLen) (name : Bytes) :
    (whitelisted maxLen name).length < maxLen := by
  unfold whitelisted
  rw [List.length_map, List.length_take]
  omega

theorem hexDigit_allowed
    (n : Nat) (h : n < 16) :
    allowedInName (hexDigit n) = true ∧ hexDigit n ≠ 0x2e := by
  have hall : ∀ m < 16, allowedInName (hexDigit m) = true ∧ hexDigit m ≠ 0x2e := by
    decide
  exact hall n h

/-- The characters of the name that stands in for an empty one. -/
theorem fallback_chars
    (rnd : UInt32) :
    ∀ c ∈ [0x66, 0x69, 0x6c, 0x65, 0x5f] ++ hex8 rnd,
      allowedInName c = true ∧ c ≠ 0x2e := by
  intro c hc
  rcases List.mem_append.mp hc with hc | hc
  · simp only [List.mem_cons, List.not_mem_nil, or_false] at hc
    rcases hc with rfl | rfl | rfl | rfl | rfl <;> decide
  · obtain ⟨b, -, hb⟩ := List.mem_flatMap.mp hc
    simp only [List.mem_cons, List.not_mem_nil, or_false] at hb
    have hlt := b.toNat_lt
    rcases hb with rfl | rfl
    · exact hexDigit_allowed _ (by omega)
    · exact hexDigit_allowed _ (by omega)

/-- Characters without a dot make a safe name. -/
theorem SafeName.of_no_dot
    (hne : name ≠ []) (hlen : name.length < maxLen)
    (h : ∀ c ∈ name, allowedInName c = true ∧ c ≠ 0x2e) :
    SafeName maxLen name where
  ne_nil := hne
  short := hlen
  allowed := fun c hc => (h c hc).1
  noDotDot := fun hin => (h 0x2e (hin.subset (by simp))).2 rfl
  noLeadingDot := fun hhead => (h 0x2e (List.mem_of_mem_head? hhead)).2 rfl

/-- Whatever name is given, a safe one comes out. -/
theorem sanitizeFilename_safe
    (rnd : UInt32) (hlen : 2 ≤ maxLen) (name : Bytes) :
    SafeName maxLen (sanitizeFilename rnd maxLen name) := by
  rw [sanitizeFilename_eq]
  split
  · apply SafeName.of_no_dot
    · obtain ⟨n, rfl⟩ : ∃ n, maxLen = n + 2 := ⟨maxLen - 2, by omega⟩
      simp
    · rw [List.length_take]
      omega
    · intro c hc
      exact fallback_chars rnd c (List.mem_of_mem_take hc)
  · rename_i hne
    exact
      { ne_nil := hne
        short := by
          rw [replaceLeadingDot_length, replaceDotDot_length]
          exact whitelisted_length hlen name
        allowed := replaceLeadingDot_allowed
          (replaceDotDot_allowed (whitelisted_allowed maxLen name))
        noDotDot := replaceLeadingDot_noDotDot (replaceDotDot_noDotDot _)
        noLeadingDot := replaceLeadingDot_head _ }

/-- No separator is allowed in a name. -/
theorem SafeName.no_separator
    (h : SafeName maxLen name) :
    ∀ c ∈ name, c ≠ 0x2f ∧ c ≠ 0x5c := by
  intro c hc
  constructor
  · rintro rfl
    exact absurd (h.allowed _ hc) (by decide)
  · rintro rfl
    exact absurd (h.allowed _ hc) (by decide)

/-- A safe name is left alone. -/
theorem SafeName.fixed
    (h : SafeName maxLen name) (rnd : UInt32) :
    sanitizeFilename rnd maxLen name = name := by
  have hwhite : whitelisted maxLen name = name := by
    have hshort := h.short
    unfold whitelisted
    rw [afterLastSlash_eq_self (fun c hc => (h.no_separator c hc).1),
      List.take_of_length_le (by omega)]
    conv_rhs => rw [← List.map_id name]
    apply List.map_congr_left
    intro c hc
    rw [if_pos (h.allowed c hc)]
    rfl
  rw [sanitizeFilename_eq, hwhite, replaceDotDot_eq_self h.noDotDot,
    replaceLeadingDot_eq_self h.noLeadingDot, if_neg h.ne_nil]

end Sanitized

section Created

variable {name : Bytes}

/-- A name that `open_recv_file` builds from `safeName`. -/
def ReceivedName (safeName name : Bytes) : Prop :=
  name = receivedTag ++ safeName ∨
    ∃ rnd : UInt32, name = receivedTag ++ safeName ++ [0x2e] ++ hex8 rnd

theorem hex8_length
    (rnd : UInt32) :
    (hex8 rnd).length = 8 := by
  simp [hex8, hex, be32]

/-- The names fit the buffers untruncated. -/
theorem ReceivedName.length
    {safeName : Bytes} (h : SafeName 256 safeName) (hname : ReceivedName safeName name) :
    name.length < 300 := by
  have hshort := h.short
  have htag : receivedTag.length = 9 := rfl
  rcases hname with rfl | ⟨rnd, rfl⟩
  · rw [List.length_append]
    omega
  · rw [List.length_append, List.length_append, List.length_append, hex8_length]
    simp only [List.length_singleton]
    omega

/-- One call of `open_recv_file`: it creates a file and records its name, or does neither. -/
def RecordsCreated (E : Env) (i : Slot) (safeName : Bytes) (v : View) : Prop :=
  (∃ fd name, (openRecvFile E i safeName v).1 = .ok fd ∧ ReceivedName safeName name ∧
    (openRecvFile E i safeName v).2.sh.log = v.sh.log ++ [.fileCreate i name] ∧
    (openRecvFile E i safeName v).2.ps.rxFile.localName = name) ∨
  (∃ err, (openRecvFile E i safeName v).1 = .error err ∧
    (openRecvFile E i safeName v).2.sh.log = v.sh.log)

/-- The three results of an exclusive `openat`. -/
theorem openatExcl_results
    (E : Env) (i : Slot) (name : Bytes) (v : View) :
    (∃ fd, openatExcl E i name v = (.fd fd, v.tickOn.emit [.fileCreate i name])) ∨
      openatExcl E i name v = (.eexist, v.tickOn) ∨ openatExcl E i name v = (.err, v.tickOn) := by
  unfold openatExcl
  cases E.openat v.sh.tick with
  | fd fd =>
      exact Or.inl ⟨fd, rfl⟩
  | eexist =>
      exact Or.inr (Or.inl rfl)
  | err =>
      exact Or.inr (Or.inr rfl)

theorem openRecvFile_records
    (E : Env) (i : Slot) {safeName : Bytes} (h : SafeName 256 safeName) (v : View) :
    RecordsCreated E i safeName v := by
  have hfirst : ¬ (receivedTag ++ safeName).length ≥ 300 :=
    Nat.not_le.mpr (ReceivedName.length h (Or.inl rfl))
  have hsecond : ∀ rnd, ¬ (receivedTag ++ safeName ++ [0x2e] ++ hex8 rnd).length ≥ 300 :=
    fun rnd => Nat.not_le.mpr (ReceivedName.length h (Or.inr ⟨rnd, rfl⟩))
  unfold RecordsCreated openRecvFile
  split
  · exact Or.inr ⟨_, rfl, rfl⟩
  split
  · exact Or.inr ⟨_, rfl, rfl⟩
  split
  · exact Or.inr ⟨_, rfl, rfl⟩
  dsimp only
  rw [if_neg hfirst]
  generalize hu : v.tickOn = u
  have hlog : u.sh.log = v.sh.log := by
    rw [← hu]
    rfl
  rcases openatExcl_results E i (receivedTag ++ safeName) u with ⟨fd, hopen⟩ | hopen | hopen
  · rw [hopen, ← hlog]
    exact Or.inl ⟨fd, _, rfl, Or.inl rfl, rfl, rfl⟩
  · -- the name is taken: once more with a random suffix
    rw [hopen]
    dsimp only
    rw [if_neg (hsecond _)]
    generalize hw : u.tickOn.tickOn = w
    have hlog' : w.sh.log = v.sh.log := by
      rw [← hw, ← hlog]
      rfl
    rcases openatExcl_results E i
      (receivedTag ++ safeName ++ [0x2e] ++ hex8 (E.random u.tickOn.sh.tick)) w with
      ⟨fd, hopen'⟩ | hopen' | hopen'
    · rw [hopen', ← hlog']
      exact Or.inl ⟨fd, _, rfl, Or.inr ⟨_, rfl⟩, rfl, rfl⟩
    · rw [hopen']
      exact Or.inr ⟨_, rfl, hlog'⟩
    · rw [hopen']
      exact Or.inr ⟨_, rfl, hlog'⟩
  · rw [hopen]
    exact Or.inr ⟨_, rfl, hlog⟩

/--
Whatever the name, what `sanitize_filename` leaves is safe and a second application changes
nothing.  With a limit of 256 bytes the names of `open_recv_file` fit their buffers, and the name
it records is that of the file it has created; in every run with `O_EXCL` a slot writes to,
closes and deletes only the file that it has created last.
-/
theorem sanitize_filename_confines
    (rnd rnd' : UInt32) (maxLen : Nat) (hlen : 2 ≤ maxLen) (name : Bytes) :
    SafeName maxLen (sanitizeFilename rnd maxLen name) ∧
      sanitizeFilename rnd' maxLen (sanitizeFilename rnd maxLen name) =
        sanitizeFilename rnd maxLen name ∧
      (maxLen = 256 →
        (∀ entry, ReceivedName (sanitizeFilename rnd maxLen name) entry → entry.length < 300) ∧
        ∀ E i v, RecordsCreated E i (sanitizeFilename rnd maxLen name) v) ∧
      ∀ (P : Primitives) (E : Env) (start : Bytes → Option Bytes) (c : Config)
        (evs : List AppEvent),
        Exclusive start (fileOps (appRun P E (initialState c) evs).sh.log) →
        Orderly (fileOps (appRun P E (initialState c) evs).sh.log) := by
  have hsafe := sanitizeFilename_safe rnd hlen name
  refine ⟨hsafe, hsafe.fixed rnd', ?_, ?_⟩
  · rintro rfl
    exact ⟨fun _ h => ReceivedName.length hsafe h, fun E i v => openRecvFile_records E i hsafe v⟩
  · intro P E start c evs hexcl
    exact (appRun_filesOk start c evs hexcl).kept.orderly

/-- "a/....x". -/
def dottedName : Bytes :=
  [0x61, 0x2f, 0x2e, 0x2e, 0x2e, 0x2e, 0x78]

theorem sanitize_filename_confines_dots :
    sanitizeFilename 0 256 dottedName = [0x5f, 0x5f, 0x5f, 0x5f, 0x78] ∧
      SafeName 256 (sanitizeFilename 0 256 dottedName) :=
  ⟨by decide +kernel, (sanitize_filename_confines 0 0 256 (by decide) dottedName).1⟩

end Created

end App
end Noxtor
