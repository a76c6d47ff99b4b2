import AmdgpuFand.Lib.Reads
import AmdgpuFand.Watch

/-!
# Which bytes the event loop looks at

The loop of `fsys_watch_event` byte by byte: a pointer goes from one event to the next by the length
that each of them states, and names are compared by `strcmp`. The memory is what `read` has stored
and no more, so that a look behind it is undefined, and the indices of the bytes are recorded.
`fsysWatchEvent_scan` says for all batches that the loop is defined, which events it looks at and
when it triggers.
-/

namespace AmdgpuFand

open InotifyEvent

/-! ## The loop, byte by byte -/

/-- A member of four bytes -/
def readWord (buf : List UInt8) (pos : ℕ) : Reads ℕ := do
  let bytes ← Reads.bytes buf pos 4
  pure (Memory.leValue bytes)

/-- `strcmp(..) == 0` of the string at `pos` and `s`: they are read up to the first difference, or
up to the terminator. -/
def strcmpAt (buf : List UInt8) : ℕ → List UInt8 → Reads Bool
  | pos, [] => do
    let b ← Reads.byte buf pos
    pure (decide (b = 0))
  | pos, c :: s => do
    let b ← Reads.byte buf pos
    if b = c then strcmpAt buf (pos + 1) s else pure false

/-- The condition on the event at `ibufp`, which stops at the first operand of `&&` that is zero -/
def eventMatches (flags : UInt32) (filename buf : List UInt8) (ibufp : ℕ) : Reads Bool := do
  let mask ← readWord buf (ibufp + 4)
  if UInt32.ofNat mask &&& flags = 0 then pure false
  else do
    let len ← readWord buf (ibufp + 12)
    if len = 0 then pure false else strcmpAt buf (ibufp + 16) filename

/-- The loop of `fsys_watch_event`, on the `nbytes` bytes of `buf` -/
def eventLoop (flags : UInt32) (filename buf : List UInt8) : ℕ → ℕ → Reads Bool
  | 0, _ => fun _ => none
  | fuel + 1, ibufp =>
    if ibufp < buf.length then do
      let found ← eventMatches flags filename buf ibufp
      if found then pure true
      else do
        let len ← readWord buf (ibufp + 12)
        eventLoop flags filename buf fuel (ibufp + (16 + len))
    else pure false

/-- `fsys_watch_event`, with what `read` stores, or `none` for an error. Every turn of the loop goes
on by 16 bytes or more, so that the number of bytes is fuel enough. -/
def fsysWatchEventAt (path : List UInt8) (watch : InotifyWatch) (read : Option (List UInt8)) :
    Reads (ℤ × InotifyWatch) :=
  let watch := { watch with triggered := false }
  match read with
  | none => pure (0, watch)
  | some buf => do
    let triggered ← eventLoop watch.flags (watchedName path) buf (buf.length + 1) 0
    pure (0, { watch with triggered })

/-! ## Comparing names -/

/-- The first byte of a string -/
theorem returns_first (front : List UInt8) (c : UInt8) (rest : List UInt8) (k : ℕ) :
    (Reads.byte (front ++ c :: rest) front.length).Returns
      (fun i => front.length ≤ i ∧ i ≤ front.length + k) c := by
  refine (Reads.Returns.byte front c rest).mono ?_
  rintro i rfl
  exact ⟨le_refl _, Nat.le_add_right _ _⟩

/-- `strcmp` reads no more than the name and its terminator. -/
theorem strcmpAt_returns {front name rest filename : List UInt8} (hname : 0 ∉ name)
    (hfilename : 0 ∉ filename) :
    (strcmpAt (front ++ (name ++ 0 :: rest)) front.length filename).Returns
      (fun i => front.length ≤ i ∧ i ≤ front.length + name.length) (decide (name = filename)) := by
  induction filename generalizing front name with
  | nil =>
    rcases name with _ | ⟨b, name⟩
    · exact (returns_first front 0 rest _).bind (.pure _ _)
    · have hb : b ≠ 0 := fun h => hname (by rw [h]; exact List.mem_cons_self ..)
      have hdiff : decide (b :: name = []) = decide (b = 0) := by
        rw [decide_eq_false hb]
        rfl
      rw [hdiff]
      exact (returns_first front b (name ++ 0 :: rest) _).bind (.pure _ _)
  | cons c filename ih =>
    rw [List.mem_cons, not_or] at hfilename
    obtain ⟨hc, hfilename⟩ := hfilename
    rcases name with _ | ⟨b, name⟩
    · refine (returns_first front 0 rest _).bind ?_
      rw [if_neg hc]
      exact .pure _ _
    · rw [List.mem_cons, not_or] at hname
      refine (returns_first front b (name ++ 0 :: rest) _).bind ?_
      -- the comparison goes on while the characters agree
      by_cases hbc : b = c
      · subst hbc
        have hrest := @ih (front ++ [b]) name hname.2 hfilename
        rw [List.length_append, List.length_singleton, List.append_assoc, List.singleton_append]
          at hrest
        rw [if_pos rfl]
        simp only [List.cons.injEq, true_and]
        refine hrest.mono fun i hi => ?_
        rw [List.length_cons]
        omega
      · rw [if_neg hbc]
        have hdiff : decide (b :: name = c :: filename) = false :=
          decide_eq_false fun h => hbc (List.cons.inj h).1
        rw [hdiff]
        exact .pure _ _

/-! ## One event -/

theorem readWord_returns (front : List UInt8) {bytes : List UInt8} {off v : ℕ}
    (hbytes : (bytes.drop off).take 4 = Memory.leBytes 4 v) (hv : v < 2 ^ 32) :
    (readWord (front ++ bytes) (front.length + off)).Returns
      (fun i => front.length + off ≤ i ∧ i < front.length + off + 4) v := by
  have hlen := congrArg List.length hbytes
  rw [List.length_take, List.length_drop, Memory.leBytes_length] at hlen
  have hinside : front.length + off + 4 ≤ (front ++ bytes).length := by
    rw [List.length_append]
    omega
  have hdrop : (front ++ bytes).drop (front.length + off) = bytes.drop off := by
    rw [← List.drop_drop, List.drop_left]
  have hvalue : Memory.leValue (Memory.leBytes 4 v) = v := by
    rw [Memory.leValue_leBytes]
    exact Nat.mod_eq_of_lt hv
  have hload := Reads.Returns.bytes hinside
  rw [hdrop, hbytes] at hload
  refine hload.bind ?_
  rw [hvalue]
  exact .pure _ _

section Event

variable {flags : UInt32} {filename : List UInt8} (front : List UInt8) (e : InotifyEvent)
  (rest : List UInt8)

theorem readMask_returns :
    (readWord (front ++ (e.bytes ++ rest)) (front.length + 4)).Returns
      (fun i => front.length ≤ i ∧ i < front.length + e.bytes.length) e.mask.toNat := by
  refine (readWord_returns front (e.mask_bytes rest) e.mask.toNat_lt).mono fun i hi => ?_
  rw [e.length_bytes]
  omega

theorem readLen_returns :
    (readWord (front ++ (e.bytes ++ rest)) (front.length + 12)).Returns
      (fun i => front.length ≤ i ∧ i < front.length + e.bytes.length) e.len := by
  refine (readWord_returns front (e.len_bytes rest) e.len_lt).mono fun i hi => ?_
  rw [e.length_bytes]
  omega

/-- The name of an event, if it has one -/
theorem strcmpName_returns (hlen : e.len ≠ 0) (hfilename : 0 ∉ filename) :
    (strcmpAt (front ++ (e.bytes ++ rest)) (front.length + 16) filename).Returns
      (fun i => front.length ≤ i ∧ i < front.length + e.bytes.length)
      (decide (e.name = filename)) := by
  obtain ⟨n, hn⟩ := Nat.exists_eq_succ_of_ne_zero (padding_ne_zero hlen)
  have hmem : front ++ (e.bytes ++ rest) =
      (front ++ e.header) ++ (e.name ++ 0 :: (List.replicate n 0 ++ rest)) := by
    rw [bytes, hn, List.replicate_succ]
    simp only [List.append_assoc, List.cons_append]
  have hpos : front.length + 16 = (front ++ e.header).length := by
    rw [List.length_append, e.header_length]
  rw [hmem, hpos]
  refine (strcmpAt_returns e.name_nul hfilename).mono fun i hi => ?_
  rw [← hpos] at hi
  rw [e.length_bytes, len]
  omega

/-- The condition is evaluated inside of the event. -/
theorem eventMatches_returns (hfilename : 0 ∉ filename) :
    (eventMatches flags filename (front ++ (e.bytes ++ rest)) front.length).Returns
      (fun i => front.length ≤ i ∧ i < front.length + e.bytes.length)
      (decide (e.Matches flags filename)) := by
  refine (readMask_returns front e rest).bind ?_
  rw [UInt32.ofNat_toNat]
  by_cases hmask : e.mask &&& flags = 0
  · have hno : decide (e.Matches flags filename) = false :=
      decide_eq_false fun h => h.1 hmask
    rw [if_pos hmask, hno]
    exact .pure _ _
  · rw [if_neg hmask]
    refine (readLen_returns front e rest).bind ?_
    by_cases hlen : e.len = 0
    · have hno : decide (e.Matches flags filename) = false :=
        decide_eq_false fun h => h.2.1 hlen
      rw [if_pos hlen, hno]
      exact .pure _ _
    · have hname : decide (e.Matches flags filename) = decide (e.name = filename) :=
        decide_eq_decide.mpr ⟨fun h => h.2.2, fun h => ⟨hmask, hlen, h⟩⟩
      rw [if_neg hlen, hname]
      exact strcmpName_returns front e rest hlen hfilename

end Event

/-! ## The batch -/

/-- A byte of an event that the loop comes to: `Stop` holds for none of the events before it. -/
def LookedAt (Stop : InotifyEvent → Prop) (events : List InotifyEvent) (i : ℕ) : Prop :=
  ∃ before e after, events = before ++ e :: after ∧ (∀ e' ∈ before, ¬ Stop e') ∧
    (batch before).length ≤ i ∧ i < (batch before).length + (16 + e.len)

theorem batch_append (events events' : List InotifyEvent) :
    batch (events ++ events') = batch events ++ batch events' :=
  List.flatMap_append

theorem batch_cons (e : InotifyEvent) (events : List InotifyEvent) :
    batch (e :: events) = e.bytes ++ batch events :=
  List.flatMap_cons

/-- What is looked at has been read. -/
theorem LookedAt.lt {Stop : InotifyEvent → Prop} {events : List InotifyEvent} {i : ℕ}
    (h : LookedAt Stop events i) : i < (batch events).length := by
  obtain ⟨before, e, after, rfl, -, -, hi⟩ := h
  rw [batch_append, batch_cons, List.length_append, List.length_append, e.length_bytes]
  omega

/-- From the event that `ibufp` points at, with none that matches before it, the loop looks for one
that does. -/
theorem eventLoop_returns {flags : UInt32} {filename : List UInt8} (hfilename : 0 ∉ filename)
    (events : List InotifyEvent) {before : List InotifyEvent} {fuel : ℕ}
    (hbefore : ∀ e ∈ before, ¬ e.Matches flags filename) (hfuel : events.length < fuel) :
    (eventLoop flags filename (batch (before ++ events)) fuel (batch before).length).Returns
      (LookedAt (fun e => e.Matches flags filename) (before ++ events))
      (events.any fun e => e.Matches flags filename) := by
  induction events generalizing before fuel with
  | nil =>
    obtain ⟨fuel, rfl⟩ := Nat.exists_eq_succ_of_ne_zero (Nat.ne_zero_of_lt hfuel)
    rw [List.append_nil, eventLoop, if_neg (lt_irrefl _)]
    exact .pure _ _
  | cons e events ih =>
    obtain ⟨fuel, rfl⟩ := Nat.exists_eq_succ_of_ne_zero (Nat.ne_zero_of_lt hfuel)
    have hmem : batch (before ++ e :: events) = batch before ++ (e.bytes ++ batch events) := by
      rw [batch_append, batch_cons]
    have hin : (batch before).length < (batch (before ++ e :: events)).length := by
      rw [hmem, List.length_append, List.length_append, e.length_bytes]
      omega
    -- what is read of this event is part of the batch
    have hlooked : ∀ i, (batch before).length ≤ i ∧ i < (batch before).length + e.bytes.length →
        LookedAt (fun e => e.Matches flags filename) (before ++ e :: events) i := by
      rintro i ⟨hle, hlt⟩
      rw [e.length_bytes] at hlt
      exact ⟨before, e, events, rfl, hbefore, hle, hlt⟩
    have hcond := (@eventMatches_returns flags filename (batch before) e (batch events)
      hfilename).mono hlooked
    have hlen := (readLen_returns (batch before) e (batch events)).mono hlooked
    rw [← hmem] at hcond hlen
    rw [eventLoop, if_pos hin, List.any_cons]
    refine hcond.bind ?_
    by_cases hmatch : e.Matches flags filename
    · rw [decide_eq_true hmatch, if_pos rfl, Bool.true_or]
      exact .pure _ _
    · -- the stride leads to the next event, which has one more in front of it that does not match
      rw [decide_eq_false hmatch, if_neg Bool.false_ne_true, Bool.false_or]
      refine hlen.bind ?_
      have hnext : (batch before).length + (16 + e.len) = (batch (before ++ [e])).length := by
        rw [batch_append, batch_cons, List.length_append, List.length_append, e.length_bytes]
        rfl
      have hbefore' : ∀ e' ∈ before ++ [e], ¬ e'.Matches flags filename := by
        intro e' he'
        rcases List.mem_append.mp he' with he' | he'
        · exact hbefore e' he'
        · rwa [List.mem_singleton.mp he']
      have hrest := ih hbefore' (Nat.lt_of_succ_lt_succ hfuel)
      rw [List.append_assoc, List.singleton_append] at hrest
      rw [hnext]
      exact hrest

/-! ## The last component -/

/-- The text after the last slash of a path, or the path if it has none -/
def LastComponent (path name : List UInt8) : Prop :=
  slash ∉ name ∧ (name = path ∨ ∃ front, path = front ++ slash :: name)

theorem exists_last_of_mem {c : UInt8} {s : List UInt8} (h : c ∈ s) :
    ∃ front behind, s = front ++ c :: behind ∧ c ∉ behind := by
  obtain ⟨as, bs, hs, has⟩ := List.eq_append_cons_of_mem (List.mem_reverse.mpr h)
  refine ⟨bs.reverse, as.reverse, ?_, fun hmem => has (List.mem_reverse.mp hmem)⟩
  rw [← List.reverse_reverse s, hs]
  simp

/-- `filename` is the last component. -/
theorem lastComponent_iff {path name : List UInt8} :
    LastComponent path name ↔ name = watchedName path := by
  by_cases hslash : slash ∈ path
  · obtain ⟨front, behind, rfl, hbehind⟩ := exists_last_of_mem hslash
    have hwatched : watchedName (front ++ slash :: behind) = behind := by
      rw [watchedName, strrchr_append front hbehind]
      rfl
    rw [hwatched]
    constructor
    · rintro ⟨hname, rfl | ⟨front', hpath⟩⟩
      · exact absurd hslash hname
      · have hlast := strrchr_append front hbehind
        rw [hpath, strrchr_append front' hname] at hlast
        exact (Prod.mk.inj (Option.some.inj hlast)).2
    · rintro rfl
      exact ⟨hbehind, .inr ⟨front, rfl⟩⟩
  · have hwatched : watchedName path = path := by
      rw [watchedName, strrchr_eq_none hslash]
      rfl
    rw [hwatched]
    constructor
    · rintro ⟨-, rfl | ⟨front, rfl⟩⟩
      · rfl
      · exact absurd (List.mem_append_right front (List.mem_cons_self ..)) hslash
    · rintro rfl
      exact ⟨hslash, .inl rfl⟩

/-- An event that `fsys_watch_event` is there for -/
def InotifyEvent.Triggers (flags : UInt32) (path : List UInt8) (e : InotifyEvent) : Prop :=
  e.mask &&& flags ≠ 0 ∧ e.len ≠ 0 ∧ LastComponent path e.name

theorem triggers_iff {flags : UInt32} {path : List UInt8} {e : InotifyEvent} :
    e.Triggers flags path ↔ e.Matches flags (watchedName path) := by
  rw [Triggers, Matches, lastComponent_iff]

/-- **Scanning the events.** For every batch of whole events, every watch and every path, the loop
ends. It reads nothing but headers and names of events, one after the other, inside of what has
been read and up to the first event that triggers. `triggered` is set if and only if there is an
event with a mask of the watch and the last component of the path as its name, and the rest of the
watch is as before. -/
theorem fsysWatchEvent_scan {path : List UInt8} (hpath : 0 ∉ path) (watch : InotifyWatch)
    (events : List InotifyEvent) :
    ∃ triggered : Bool,
      (fsysWatchEventAt path watch (some (batch events))).Returns
        (fun i => i < (batch events).length ∧ LookedAt (Triggers watch.flags path) events i)
        (0, { watch with triggered }) ∧
      (triggered = true ↔ ∃ e ∈ events, e.Triggers watch.flags path) ∧
      fsysWatchEvent path watch (some (batch events)) = some (0, { watch with triggered }) := by
  have hfilename : 0 ∉ watchedName path := by
    obtain ⟨-, hname | ⟨front, hfront⟩⟩ := lastComponent_iff.mpr (rfl : watchedName path = _)
    · rwa [hname]
    · intro hmem
      rw [hfront] at hpath
      exact hpath (List.mem_append_right front (List.mem_cons_of_mem slash hmem))
  have hstop : (fun e : InotifyEvent => e.Matches watch.flags (watchedName path)) =
      Triggers watch.flags path := by
    funext e
    exact propext triggers_iff.symm
  have hloop := @eventLoop_returns watch.flags (watchedName path) hfilename events []
    ((batch events).length + 1) (List.forall_mem_nil _)
    (Nat.lt_succ_of_le (length_le_batch events))
  rw [hstop, List.nil_append] at hloop
  have hinside : ∀ i, LookedAt (Triggers watch.flags path) events i →
      i < (batch events).length ∧ LookedAt (Triggers watch.flags path) events i :=
    fun i hi => ⟨hi.lt, hi⟩
  refine ⟨_, ?_, ?_, fsysWatchEvent_batch path watch events⟩
  · exact (hloop.mono hinside).bind (.pure _ _)
  · rw [List.any_eq_true]
    simp only [decide_eq_true_eq, triggers_iff]

/-- Two modifications. The name of the first begins with the one that is watched. -/
theorem fsysWatchEvent_scan_fand :
    ∃ trace, (fsysWatchEventAt (ascii "/etc/fand") ⟨3, 1, inModify, false⟩
      (some (batch [modification (ascii "fand.conf") (by decide) (by decide),
        modification (ascii "fand") (by decide) (by decide)]))).run [] =
      some ((0, ⟨3, 1, inModify, true⟩), trace) := by
  have hpath : 0 ∉ ascii "/etc/fand" := by decide
  have hslash : slash ∉ ascii "fand" := by decide
  have hmask : inModify &&& inModify ≠ 0 := by decide
  obtain ⟨triggered, hreturns, htriggered, -⟩ :=
    fsysWatchEvent_scan hpath ⟨3, 1, inModify, false⟩
      [modification (ascii "fand.conf") (by decide) (by decide),
        modification (ascii "fand") (by decide) (by decide)]
  have htrue : triggered = true :=
    htriggered.mpr ⟨_, List.mem_cons_of_mem _ (List.mem_singleton_self _), hmask,
      Nat.succ_ne_zero _, hslash, .inr ⟨ascii "/etc", rfl⟩⟩
  obtain ⟨more, hrun, -⟩ := hreturns []
  rw [htrue] at hrun
  exact ⟨_, hrun⟩

end AmdgpuFand
