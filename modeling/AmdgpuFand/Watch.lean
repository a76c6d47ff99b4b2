import AmdgpuFand.Paths
import AmdgpuFand.Restart

/-!
# Watching the configuration file

`fsys_watch_init` resolves the path of the file and has `inotify` watch the directory that the
resolved path names; `fsys_watch_event` compares the names in the events with the last component of
the path as it was given. The two belong to the same file as long as resolving the path does not
change its last component. If the path is itself a symbolic link to a file of another name, the
daemon watches for a name that never comes, and no message tells so.

A batch of events is the bytes that `read` stores, one `struct inotify_event` with its name behind
the other.
-/

namespace AmdgpuFand

open CLib

/-! ## Paths -/

/-- `'/'` -/
def slash : UInt8 := 47

/-- `strrchr`: what stands in front of the last occurrence, and behind it -/
def strrchr (c : UInt8) : List UInt8 → Option (List UInt8 × List UInt8)
  | [] => none
  | b :: s =>
    match strrchr c s with
    | some (front, behind) => some (b :: front, behind)
    | none => if b = c then some ([], s) else none

/-- `fsys_strip_filename` -/
def fsysStripFilename (path : List UInt8) : Option (List UInt8) :=
  (strrchr slash path).map Prod.fst

/-- The name that `fsys_watch_event` looks for: `filename ? filename + 1 : path` -/
def watchedName (path : List UInt8) : List UInt8 := ((strrchr slash path).map Prod.snd).getD path

theorem strrchr_eq_none {c : UInt8} {s : List UInt8} (h : c ∉ s) : strrchr c s = none := by
  induction s with
  | nil => rfl
  | cons b s ih =>
    rw [List.mem_cons, not_or] at h
    obtain ⟨hb, hs⟩ := h
    rw [strrchr, ih hs]
    exact if_neg (Ne.symm hb)

theorem strrchr_append {c : UInt8} (front : List UInt8) {behind : List UInt8} (h : c ∉ behind) :
    strrchr c (front ++ c :: behind) = some (front, behind) := by
  induction front with
  | nil =>
    rw [List.nil_append, strrchr, strrchr_eq_none h]
    exact if_pos rfl
  | cons b front ih => rw [List.cons_append, strrchr, ih]

/-! ## The environment -/

/-- What `fsys_watch_init` depends on -/
structure WatchEnv where
  /-- `stat`: whether there is a directory, and `none` for an error -/
  stat : List UInt8 → Option Bool
  /-- `realpath` -/
  realpath : List UInt8 → Option (List UInt8)
  /-- the descriptor that `inotify_init1` returns -/
  inotifyInit : Option ℤ
  /-- the watch that `inotify_add_watch` returns for a path -/
  inotifyAddWatch : List UInt8 → Option ℤ
  /-- `abspath`, uninitialised -/
  scratch : List UInt8
  scratch_size : scratch.length = 256
  resolved : ∀ path abspath, realpath path = some abspath → 0 ∉ abspath

/-- `struct inotify_watch` -/
structure InotifyWatch where
  fd : ℤ
  wd : ℤ
  flags : UInt32
  triggered : Bool
  deriving DecidableEq, Repr

/-- `IN_MODIFY` -/
def inModify : UInt32 := 2

/-- `FSYS_PATH_MAX_LENGTH` -/
def fsysPathMaxLength : ℕ := 256

namespace WatchEnv

variable (env : WatchEnv)

/-- `fsys_dir_exists` -/
def fsysDirExists (path : List UInt8) : Bool := env.stat path == some true

/-- The directory of a resolved path: the path itself if it is one, else what is left without the
name -/
def watchDir (abspath : List UInt8) : Option (List UInt8) :=
  if env.fsysDirExists abspath then some abspath
  else
    match fsysStripFilename abspath with
    | none => none
    | some dir => if env.fsysDirExists dir then some dir else none

/-- `fsys_watch_init`: the watch, and the path that is watched -/
def fsysWatchInit (path : List UInt8) (flags : UInt32) : Option (InotifyWatch × List UInt8) :=
  if env.stat path = none then none
  else
    let (n, abspath) := fsysAbspath env.realpath env.scratch path fsysPathMaxLength
    if n < 0 then none
    else
      match env.watchDir (pathOf abspath) with
      | none => none
      | some dir =>
        match env.inotifyInit with
        | none => none
        | some fd =>
          match env.inotifyAddWatch dir with
          | none => none
          | some wd => some (⟨fd, wd, flags, false⟩, dir)

end WatchEnv

/-! ## Events -/

/-- `struct inotify_event`, with the name behind it and the NULs that pad it -/
structure InotifyEvent where
  wd : UInt32
  mask : UInt32
  cookie : UInt32
  name : List UInt8
  padding : ℕ
  name_nul : 0 ∉ name
  padded : name ≠ [] → padding ≠ 0
  len_lt : name.length + padding < 2 ^ 32

namespace InotifyEvent

variable (e : InotifyEvent)

/-- The member `len` -/
def len : ℕ := e.name.length + e.padding

/-- The members in front of the name -/
def header : List UInt8 :=
  Memory.leBytes 4 e.wd.toNat ++ Memory.leBytes 4 e.mask.toNat ++
    Memory.leBytes 4 e.cookie.toNat ++ Memory.leBytes 4 e.len

/-- The event in memory -/
def bytes : List UInt8 := e.header ++ (e.name ++ List.replicate e.padding 0)

end InotifyEvent

/-- `INOTIFY_BUF_LENGTH`, of events of 16 bytes without their names -/
def inotifyBufLength : ℕ := 32 * 16

/-- The loop of `fsys_watch_event`, on the bytes from `ibufp` on: whether it triggers. A header that
is not whole is not read. -/
def watchLoop (flags : UInt32) (filename : List UInt8) : ℕ → List UInt8 → Option Bool
  | 0, _ => none
  | fuel + 1, ibufp =>
    if ibufp = [] then some false
    else if ibufp.length < 16 then none
    else
      let mask := UInt32.ofNat (Memory.leValue ((ibufp.drop 4).take 4))
      let len := Memory.leValue ((ibufp.drop 12).take 4)
      if mask &&& flags ≠ 0 ∧ len ≠ 0 ∧ pathOf (ibufp.drop 16) = filename then some true
      else watchLoop flags filename fuel (ibufp.drop (16 + len))

/-- `fsys_watch_event`, with what `read` stores, or `none` for an error: the return value and the
watch. Every event takes a byte or more, so that the number of bytes is fuel enough. -/
def fsysWatchEvent (path : List UInt8) (watch : InotifyWatch) (read : Option (List UInt8)) :
    Option (ℤ × InotifyWatch) :=
  let watch := { watch with triggered := false }
  match read with
  | none => some (0, watch)
  | some inotifyBuf =>
    (watchLoop watch.flags (watchedName path) (inotifyBuf.length + 1) inotifyBuf).map
      fun triggered => (0, { watch with triggered })

/-! ## Batches -/

namespace InotifyEvent

/-- The condition of the loop -/
def Matches (e : InotifyEvent) (flags : UInt32) (filename : List UInt8) : Prop :=
  e.mask &&& flags ≠ 0 ∧ e.len ≠ 0 ∧ e.name = filename

instance (e : InotifyEvent) (flags : UInt32) (filename : List UInt8) :
    Decidable (e.Matches flags filename) :=
  inferInstanceAs (Decidable (_ ∧ _ ∧ _))

/-- What `read` stores for the events -/
def batch (events : List InotifyEvent) : List UInt8 := events.flatMap bytes

variable (e : InotifyEvent) (rest : List UInt8)

theorem header_length : e.header.length = 16 := by
  simp [header, Memory.leBytes_length]

theorem mask_bytes : ((e.bytes ++ rest).drop 4).take 4 = Memory.leBytes 4 e.mask.toNat := by
  have hwd := Memory.leBytes_length 4 e.wd.toNat
  have hmask := Memory.leBytes_length 4 e.mask.toNat
  simp only [bytes, header, List.append_assoc]
  rw [List.drop_left' hwd, List.take_left' hmask]

theorem len_bytes : ((e.bytes ++ rest).drop 12).take 4 = Memory.leBytes 4 e.len := by
  have hfront : (Memory.leBytes 4 e.wd.toNat ++ Memory.leBytes 4 e.mask.toNat ++
      Memory.leBytes 4 e.cookie.toNat).length = 12 := by
    simp [Memory.leBytes_length]
  have hlen := Memory.leBytes_length 4 e.len
  rw [bytes, header, List.append_assoc, List.append_assoc (_ ++ _ ++ _), List.drop_left' hfront,
    List.append_assoc, List.take_left' hlen]

theorem drop_header :
    (e.bytes ++ rest).drop 16 = e.name ++ (List.replicate e.padding 0 ++ rest) := by
  rw [bytes, List.append_assoc, List.drop_left' e.header_length, List.append_assoc]

theorem length_bytes : e.bytes.length = 16 + e.len := by
  rw [bytes, List.length_append, e.header_length, List.length_append, List.length_replicate, len]

theorem drop_bytes : (e.bytes ++ rest).drop (16 + e.len) = rest :=
  List.drop_left' e.length_bytes

theorem padding_ne_zero {e : InotifyEvent} (h : e.len ≠ 0) : e.padding ≠ 0 := by
  intro hzero
  have hname : e.name ≠ [] := by
    rintro hnil
    rw [len, hzero, hnil] at h
    exact h rfl
  exact e.padded hname hzero

/-- The name ends at the first NUL behind it. -/
theorem pathOf_name (h : e.len ≠ 0) : pathOf ((e.bytes ++ rest).drop 16) = e.name := by
  obtain ⟨n, hn⟩ := Nat.exists_eq_succ_of_ne_zero (padding_ne_zero h)
  rw [drop_header, hn, List.replicate_succ, List.cons_append]
  exact pathOf_append _ e.name_nul

end InotifyEvent

open InotifyEvent

variable {flags : UInt32} {filename : List UInt8}

/-- One round of the loop looks at one event. -/
theorem watchLoop_event (e : InotifyEvent) (fuel : ℕ) (rest : List UInt8) :
    watchLoop flags filename (fuel + 1) (e.bytes ++ rest) =
      if e.Matches flags filename then some true else watchLoop flags filename fuel rest := by
  have hlong : ¬ (e.bytes ++ rest).length < 16 := by
    rw [bytes, List.length_append, List.length_append, e.header_length]
    omega
  have hmask : UInt32.ofNat (Memory.leValue (((e.bytes ++ rest).drop 4).take 4)) = e.mask := by
    have hlt : e.mask.toNat < 256 ^ 4 := e.mask.toNat_lt
    rw [e.mask_bytes, Memory.leValue_leBytes, Nat.mod_eq_of_lt hlt, UInt32.ofNat_toNat]
  have hlen : Memory.leValue (((e.bytes ++ rest).drop 12).take 4) = e.len := by
    have hlt : e.len < 256 ^ 4 := e.len_lt
    rw [e.len_bytes, Memory.leValue_leBytes, Nat.mod_eq_of_lt hlt]
  have hcond : (e.mask &&& flags ≠ 0 ∧ e.len ≠ 0 ∧
      pathOf ((e.bytes ++ rest).drop 16) = filename) ↔ e.Matches flags filename := by
    refine and_congr_right fun _ => and_congr_right fun h => ?_
    rw [e.pathOf_name rest h]
  have hne : e.bytes ++ rest ≠ [] := by
    rintro hnil
    rw [hnil] at hlong
    exact hlong (by decide)
  rw [watchLoop, if_neg hne, if_neg hlong]
  simp only [hmask, hlen, e.drop_bytes, hcond]

/-- **The loop triggers** if and only if one of the events matches. -/
theorem watchLoop_batch (events : List InotifyEvent) {fuel : ℕ} (h : events.length < fuel) :
    watchLoop flags filename fuel (batch events) =
      some (events.any fun e => e.Matches flags filename) := by
  induction events generalizing fuel with
  | nil =>
    obtain ⟨n, rfl⟩ := Nat.exists_eq_succ_of_ne_zero (Nat.ne_zero_of_lt h)
    rfl
  | cons e events ih =>
    obtain ⟨n, rfl⟩ := Nat.exists_eq_succ_of_ne_zero (Nat.ne_zero_of_lt h)
    have hrest := ih (Nat.lt_of_succ_lt_succ h)
    rw [batch, List.flatMap_cons, watchLoop_event, ← batch, hrest, List.any_cons]
    by_cases hmatch : e.Matches flags filename
    · simp [hmatch]
    · simp [hmatch]

/-- There are no more events than bytes. -/
theorem length_le_batch (events : List InotifyEvent) : events.length ≤ (batch events).length := by
  induction events with
  | nil => exact le_refl _
  | cons e events ih =>
    rw [batch, List.flatMap_cons, ← batch, List.length_append, List.length_cons, bytes,
      List.length_append, e.header_length]
    omega

/-- `fsys_watch_event` on a batch -/
theorem fsysWatchEvent_batch (path : List UInt8) (watch : InotifyWatch)
    (events : List InotifyEvent) :
    fsysWatchEvent path watch (some (batch events)) =
      some (0, { watch with
        triggered := events.any fun e => e.Matches watch.flags (watchedName path) }) := by
  have hloop := @watchLoop_batch watch.flags (watchedName path) events _
    (Nat.lt_succ_of_le (length_le_batch events))
  simp only [fsysWatchEvent, hloop, Option.map_some]

/-! ## Watch and file -/

namespace WatchEnv

variable {env : WatchEnv} {p d f dir : List UInt8} {watch : InotifyWatch}

/-- What is watched, once it is: a directory that the resolved path names, with the flags asked
for -/
theorem fsysWatchInit_some (h : env.fsysWatchInit p flags = some (watch, dir)) :
    ∃ abspath, env.realpath p = some abspath ∧ abspath.length < fsysPathMaxLength ∧
      env.watchDir abspath = some dir ∧ watch.flags = flags := by
  rw [fsysWatchInit] at h
  split_ifs at h with hstat
  rcases hresult : fsysAbspath env.realpath env.scratch p fsysPathMaxLength with ⟨n, cells⟩
  rw [hresult] at h
  dsimp only at h
  split_ifs at h with hneg
  obtain ⟨hreal, hlen⟩ :=
    fsysAbspath_ok env.resolved env.scratch_size.ge hresult (not_lt.mp hneg)
  rcases hdir : env.watchDir (pathOf cells) with _ | dir'
  · rw [hdir] at h
    cases h
  · rw [hdir] at h
    rcases hfd : env.inotifyInit with _ | fd
    · rw [hfd] at h
      cases h
    · rw [hfd] at h
      dsimp only at h
      rcases hwd : env.inotifyAddWatch dir' with _ | wd
      · rw [hwd] at h
        cases h
      · rw [hwd] at h
        cases h
        exact ⟨pathOf cells, hreal, hlen, hdir, rfl⟩

/-- For a file the directory that is watched is the one it is in. -/
theorem watchDir_file (hf : slash ∉ f) (hfile : env.fsysDirExists (entryPath d f) = false)
    (h : env.watchDir (entryPath d f) = some dir) : dir = d := by
  have hsplit : fsysStripFilename (entryPath d f) = some d := by
    have hpath : entryPath d f = d ++ slash :: f := List.append_assoc d [slash] f
    rw [fsysStripFilename, hpath, strrchr_append d hf]
    rfl
  rw [watchDir, hfile, if_neg Bool.false_ne_true, hsplit] at h
  dsimp only at h
  by_cases hdir : env.fsysDirExists d = true
  · rw [if_pos hdir] at h
    exact (Option.some.inj h).symm
  · rw [if_neg hdir] at h
    cases h

end WatchEnv

/-- The daemon reloads its configuration at every batch with an event for the modification of this
file in the watched directory. -/
def ReloadsOn (path : List UInt8) (watch : InotifyWatch) (f : List UInt8) : Prop :=
  ∀ events : List InotifyEvent, (batch events).length ≤ inotifyBufLength →
    (∃ e ∈ events, e.name = f ∧ e.mask &&& inModify ≠ 0) →
    ∃ watch', fsysWatchEvent path watch (some (batch events)) = some (0, watch') ∧
      watch'.triggered = true ∧
      ∀ (s : Daemon) (file : Option (List Char)) (tmpdata : FandConfig),
        (s.daemonWatchEvent watch'.triggered file tmpdata).world =
          { s.world with
            data := (daemonReload file tmpdata s.world.data s.world.fanctrl).2.1
            fanctrl := (daemonReload file tmpdata s.world.data s.world.fanctrl).2.2 }

/-- A modification of the file, as `inotify` reports it -/
def modification (f : List UInt8) (hnul : 0 ∉ f) (hlen : f.length + 1 < 2 ^ 32) : InotifyEvent :=
  ⟨0, inModify, 0, f, 1, hnul, fun _ => one_ne_zero, hlen⟩

/-- **Watching.** For every path that resolves to a file, in every file system: once the watch is
set up, the directory of the file is watched, and its modification leads to a reload if and only if
the last component of the path as it was given is the name of the file. -/
theorem watch_exact {env : WatchEnv} {p d f dir : List UInt8} {watch : InotifyWatch}
    (hreal : env.realpath p = some (entryPath d f)) (hne : f ≠ []) (hf : slash ∉ f)
    (hfile : env.fsysDirExists (entryPath d f) = false)
    (hinit : env.fsysWatchInit p inModify = some (watch, dir)) :
    dir = d ∧ (ReloadsOn p watch f ↔ watchedName p = f) := by
  obtain ⟨abspath, habs, hlen, hdir, hflags⟩ := WatchEnv.fsysWatchInit_some hinit
  rw [hreal] at habs
  cases habs
  have hnul : 0 ∉ f := fun h =>
    env.resolved p _ hreal (List.mem_append_right _ h)
  rw [entryPath_length, fsysPathMaxLength] at hlen
  refine ⟨WatchEnv.watchDir_file hf hfile hdir, fun hreloads => ?_, ?_⟩
  · -- one event for the file tells
    have hsmall : f.length + 1 < 2 ^ 32 := by omega
    have hbatch : (batch [modification f hnul hsmall]).length ≤ inotifyBufLength := by
      have hlength : (batch [modification f hnul hsmall]).length = 16 + (f.length + 1) := by
        rw [batch, List.flatMap_singleton, bytes, List.length_append, header_length]
        simp [modification]
      rw [hlength, inotifyBufLength]
      omega
    have hmodify : inModify &&& inModify ≠ 0 := by decide
    obtain ⟨watch', hevent, htriggered, -⟩ :=
      hreloads [modification f hnul hsmall] hbatch ⟨_, List.mem_singleton_self _, rfl, hmodify⟩
    rw [fsysWatchEvent_batch, Option.some.injEq, Prod.mk.injEq] at hevent
    obtain ⟨-, rfl⟩ := hevent
    simp only [List.any_cons, List.any_nil, Bool.or_false, decide_eq_true_eq] at htriggered
    exact htriggered.2.2.symm
  · rintro hname events - ⟨e, he, hef, hmask⟩
    have hlen' : e.len ≠ 0 := by
      rw [len, hef]
      have hpos := List.length_pos_iff.mpr hne
      omega
    have hmatch : e.Matches watch.flags (watchedName p) := by
      rw [hflags, hname]
      exact ⟨hmask, hlen', hef⟩
    have htriggered : (events.any fun e => e.Matches watch.flags (watchedName p)) = true :=
      List.any_eq_true.mpr ⟨e, he, decide_eq_true hmatch⟩
    refine ⟨_, fsysWatchEvent_batch p watch events, htriggered, fun s file tmpdata => ?_⟩
    rw [htriggered]
    simp only [Daemon.daemonWatchEvent, Bool.or_true, if_true]

/-- A file system with the configuration in `/data/fand.conf`. The path from `/etc` is a symbolic
link to it. -/
def envLinked : WatchEnv where
  stat path :=
    if path = ascii "/etc/amdgpu-fand.conf" ∨ path = ascii "/data/fand.conf" then some false
    else if path = ascii "/data" then some true
    else none
  realpath path :=
    if path = ascii "/etc/amdgpu-fand.conf" ∨ path = ascii "/data/fand.conf" then
      some (ascii "/data/fand.conf")
    else none
  inotifyInit := some 3
  inotifyAddWatch _ := some 1
  scratch := List.replicate 256 0
  scratch_size := List.length_replicate
  resolved path abspath h := by
    split_ifs at h
    cases h
    decide

theorem watch_exact_direct :
    ReloadsOn (ascii "/data/fand.conf") ⟨3, 1, inModify, false⟩ (ascii "fand.conf") :=
  (@watch_exact envLinked (ascii "/data/fand.conf") (ascii "/data") (ascii "fand.conf")
    (ascii "/data") ⟨3, 1, inModify, false⟩ (by decide +kernel) (by decide) (by decide) (by decide)
    (by decide +kernel)).2.mpr (by decide +kernel)

/-- The file is written to, the event for it is read, and nothing is triggered. -/
theorem watch_linked :
    envLinked.fsysWatchInit (ascii "/etc/amdgpu-fand.conf") inModify =
        some (⟨3, 1, inModify, false⟩, ascii "/data") ∧
      fsysWatchEvent (ascii "/etc/amdgpu-fand.conf") ⟨3, 1, inModify, false⟩
          (some (batch [modification (ascii "fand.conf") (by decide) (by decide)])) =
        some (0, ⟨3, 1, inModify, false⟩) ∧
      ¬ ReloadsOn (ascii "/etc/amdgpu-fand.conf") ⟨3, 1, inModify, false⟩ (ascii "fand.conf") := by
  have hevent : fsysWatchEvent (ascii "/etc/amdgpu-fand.conf") ⟨3, 1, inModify, false⟩
      (some (batch [modification (ascii "fand.conf") (by decide) (by decide)])) =
      some (0, ⟨3, 1, inModify, false⟩) := by decide +kernel
  refine ⟨by decide +kernel, hevent, fun h => ?_⟩
  have hmodify : inModify &&& inModify ≠ 0 := by decide
  obtain ⟨watch', hwatch, htriggered, -⟩ :=
    h [modification (ascii "fand.conf") (by decide) (by decide)] (by decide +kernel)
      ⟨_, List.mem_singleton_self _, rfl, hmodify⟩
  rw [hevent] at hwatch
  cases hwatch
  cases htriggered

end AmdgpuFand
