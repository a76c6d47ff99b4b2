import AmdgpuFand.Conversions

/-!
# Packing what was unpacked

`unpackf` undoes `packf`. The other way round it is about messages that nobody has packed: any bytes
that are long enough for a format. All of them are read, none of them is lost in a destination, and
from the destinations `packf` makes the same bytes again (`packf_unpackf`). So every message has its
values, and no two messages have the same.

The caller has a part in this. For a count of one `packf` wants the value itself, which it may be
given with other bits above, as C promotes it; for any other count it wants the array.
-/

namespace AmdgpuFand

/-! ## What is delivered -/

namespace Target

theorem length_front_le (target : Target) (bytes : List UInt8) :
    (bytes.take target.conv.copied).length ≤ target.mem.length :=
  (List.length_take_le ..).trans (target.conv.copied_le.trans target.room)

/-- The target with the front of `bytes` copied to its object, as much as its conversion takes -/
def deliver (target : Target) (bytes : List UInt8) : Target where
  conv := target.conv
  addr := target.addr
  mem := bytes.take target.conv.copied ++
    target.mem.drop (bytes.take target.conv.copied).length
  room := by
    have hle := target.length_front_le bytes
    rw [List.length_append, List.length_drop, Nat.add_sub_cancel' hle]
    exact target.room

theorem take_deliver (target : Target) {bytes : List UInt8}
    (h : target.conv.copied ≤ bytes.length) :
    (target.deliver bytes).mem.take target.conv.copied = bytes.take target.conv.copied :=
  List.take_left' (List.length_take_of_le h)

end Target

/-- The bytes one after the other, delivered to a list of targets -/
def deliverAll : List Target → List UInt8 → List Target
  | [], _ => []
  | target :: targets, bytes =>
    target.deliver bytes :: deliverAll targets (bytes.drop target.conv.copied)

theorem targetConvs_deliverAll (targets : List Target) (bytes : List UInt8) :
    targetConvs (deliverAll targets bytes) = targetConvs targets := by
  induction targets generalizing bytes with
  | nil => rfl
  | cons target targets ih => rw [deliverAll, targetConvs_cons, targetConvs_cons, ih]; rfl

section Deliver

variable {targets : List Target} {bytes : List UInt8}

/-- `unpackf` delivers what stands behind its position. -/
theorem unpackfLoop_deliverAll {buffer : List UInt8} {bufsize fuel nread : ℕ}
    (hsmall : bufsize < 2 ^ 63) (hfuel : targets.length < fuel)
    (hfits : nread + totalCopied (targetConvs targets) ≤ bufsize) (hbuf : bufsize ≤ buffer.length) :
    unpackfLoop buffer bufsize fuel (formatOf (targetConvs targets)) (targetArgs targets) nread =
      some (((nread + totalCopied (targetConvs targets) : ℕ) : ℤ),
        targetArgs (deliverAll targets (buffer.drop nread))) := by
  induction targets generalizing nread fuel with
  | nil =>
    obtain ⟨fuel, rfl⟩ : ∃ n, fuel = n + 1 := Nat.exists_eq_succ_of_ne_zero (by omega)
    rfl
  | cons target targets ih =>
    obtain ⟨fuel, rfl⟩ : ∃ n, fuel = n + 1 := Nat.exists_eq_succ_of_ne_zero (by omega)
    rw [targetConvs_cons, totalCopied_cons] at hfits
    have hturn := @Target.unpackfLoop_target target bufsize fuel nread buffer
      (formatOf (targetConvs targets)) (targetArgs targets)
    have hfmt := formatOf_cons target.conv (targetConvs targets) []
    have hargs := targetArgs_cons target targets []
    have hargs' := targetArgs_cons (target.deliver (buffer.drop nread))
      (deliverAll targets ((buffer.drop nread).drop target.conv.copied)) []
    simp only [List.append_nil] at hfmt hargs hargs'
    have hlen : ((buffer.drop nread).take target.conv.copied).length = target.conv.copied := by
      rw [List.length_take, List.length_drop]
      omega
    have hload : Memory.load buffer nread target.conv.copied =
        some ((buffer.drop nread).take target.conv.copied) :=
      if_pos (by omega)
    have hrest := ih (Nat.lt_of_succ_lt_succ hfuel)
      (show nread + target.conv.copied + totalCopied (targetConvs targets) ≤ bufsize by omega)
    rw [targetConvs_cons, totalCopied_cons, hfmt, hargs, hturn, Nat.mod_eq_of_lt (by omega),
      if_neg (by omega), hload, Option.bind_some, target.store_bytes hlen, Option.bind_some, hrest,
      Option.bind_some, deliverAll, hargs', List.drop_drop, add_assoc]
    simp only [Target.deliver, hlen]
    rfl

theorem unpackf_deliverAll (targets : List Target) (message : Buffer)
    (hfits : totalCopied (targetConvs targets) ≤ message.size) :
    unpackf message.bytes message.size (formatOf (targetConvs targets)) (targetArgs targets) =
      some ((totalCopied (targetConvs targets) : ℤ),
        targetArgs (deliverAll targets message.bytes)) := by
  have hfuel := length_le_formatOf (targetConvs targets)
  rw [targetConvs, List.length_map, ← targetConvs] at hfuel
  have hloop := @unpackfLoop_deliverAll targets message.bytes message.size
    ((formatOf (targetConvs targets)).length + 1) 0 message.size_lt (by omega) (by omega)
    message.size_le
  rwa [Nat.zero_add, List.drop_zero, ← unpackf] at hloop

/-- Targets that hold the same have been delivered the same. -/
theorem take_eq_of_deliverAll {bytes' : List UInt8}
    (hbytes : totalCopied (targetConvs targets) ≤ bytes.length)
    (hbytes' : totalCopied (targetConvs targets) ≤ bytes'.length)
    (h : targetArgs (deliverAll targets bytes) = targetArgs (deliverAll targets bytes')) :
    bytes.take (totalCopied (targetConvs targets)) =
      bytes'.take (totalCopied (targetConvs targets)) := by
  induction targets generalizing bytes bytes' with
  | nil => rfl
  | cons target targets ih =>
    rw [targetConvs_cons, totalCopied_cons] at hbytes hbytes' ⊢
    rw [targetArgs, targetArgs, deliverAll, deliverAll, List.flatMap_cons, List.flatMap_cons,
      ← targetArgs, ← targetArgs] at h
    obtain ⟨hhead, htail⟩ := List.append_inj h (by simp [Target.args, Target.deliver])
    have hmem : (target.deliver bytes).mem = (target.deliver bytes').mem := by
      have hlast := List.append_cancel_left hhead
      exact (VaArg.pointer.inj (List.cons.inj hlast).1).2
    have hfront := congrArg (List.take target.conv.copied) hmem
    rw [target.take_deliver (by omega), target.take_deliver (by omega)] at hfront
    have hrest := ih (by rw [List.length_drop]; omega) (by rw [List.length_drop]; omega) htail
    rw [List.take_add, List.take_add, hfront, hrest]

end Deliver

/-! ## What is packed again -/

/-- A source is for the same conversion and has what the target holds: for a count of one its
value, in the bits that `packf` looks at, else the array. -/
structure Source.Carries (source : Source) (target : Target) : Prop where
  conv : source.conv = target.conv
  value : target.conv.repeats = 1 →
    source.slot.toNat % 256 ^ dfaValsize target.conv.t =
      Memory.leValue (target.mem.take target.conv.copied)
  array : target.conv.repeats ≠ 1 → source.mem = target.mem

namespace Source.Carries

variable {source : Source} {target : Target}

theorem copied_one {conv : Conversion} (h : conv.repeats = 1) :
    conv.copied = dfaValsize conv.t := by
  have hle := dfaValsize_le conv.t
  rw [Conversion.copied, Conversion.size, h, Nat.one_mul, Nat.mod_eq_of_lt (by omega)]

/-- Then `packf` copies what the target holds. -/
theorem bytes (h : source.Carries target) :
    source.bytes = target.mem.take target.conv.copied := by
  have hlen : (target.mem.take target.conv.copied).length = target.conv.copied :=
    List.length_take_of_le (target.conv.copied_le.trans target.room)
  rw [Source.bytes, h.conv]
  by_cases hone : target.conv.repeats = 1
  · have hsize := copied_one hone
    have hle := Memory.leBytes_leValue (target.mem.take target.conv.copied)
    rw [hlen, hsize] at hle
    rw [if_pos hone, ← Memory.leBytes_mod, h.value hone, hsize, hle]
  · rw [if_neg hone, h.array hone]

end Source.Carries

/-- The value or the array of a target as a source -/
def Target.source (target : Target) : Source where
  conv := target.conv
  slot := if target.conv.repeats = 1 then
      BitVec.ofNat 64 (Memory.leValue (target.mem.take target.conv.copied))
    else target.addr
  mem := target.mem
  room := fun _ => target.room

theorem Target.carries_source (target : Target) : target.source.Carries target where
  conv := rfl
  value := by
    intro hone
    have hsize := Source.Carries.copied_one hone
    have hle := dfaValsize_le target.conv.t
    have hvalue := Memory.leValue_lt (target.mem.take target.conv.copied)
    have hlen : (target.mem.take target.conv.copied).length = dfaValsize target.conv.t := by
      rw [List.length_take_of_le (target.conv.copied_le.trans target.room), hsize]
    rw [hlen] at hvalue
    have hsmall : 256 ^ dfaValsize target.conv.t ≤ 2 ^ 64 :=
      (Nat.pow_le_pow_right (by omega) hle).trans (le_of_eq (by norm_num))
    rw [source, if_pos hone, BitVec.toNat_ofNat, Nat.mod_eq_of_lt (hvalue.trans_le hsmall),
      Nat.mod_eq_of_lt hvalue]
  array := fun _ => rfl

section Sources

variable {sources : List Source} {targets : List Target}

theorem sourceConvs_of_carries (h : List.Forall₂ Source.Carries sources targets) :
    sourceConvs sources = targetConvs targets := by
  induction h with
  | nil => rfl
  | cons hcarries _ ih => rw [sourceConvs_cons, targetConvs_cons, hcarries.conv, ih]

/-- From what has been delivered, the bytes are packed again. -/
theorem sourceBytes_of_carries {bytes : List UInt8}
    (hbytes : totalCopied (targetConvs targets) ≤ bytes.length)
    (h : List.Forall₂ Source.Carries sources (deliverAll targets bytes)) :
    sourceBytes sources = bytes.take (totalCopied (targetConvs targets)) := by
  induction targets generalizing sources bytes with
  | nil =>
    cases h
    rfl
  | cons target targets ih =>
    rw [targetConvs_cons, totalCopied_cons] at hbytes ⊢
    cases h with
    | cons hcarries hrest =>
      have hfront := target.take_deliver (show target.conv.copied ≤ bytes.length by omega)
      rw [sourceBytes_cons, hcarries.bytes, List.take_add,
        ih (by rw [List.length_drop]; omega) hrest]
      exact congrArg (· ++ _) hfront

end Sources

/-- **Every message is packed again.** For every well-formed format with its destinations, and all
bytes that are long enough: `unpackf` delivers values from which `packf`, with room for them, makes
exactly the bytes that were read. No other bytes deliver the same. -/
theorem packf_unpackf (targets : List Target) (message : Buffer)
    (hfits : totalCopied (targetConvs targets) ≤ message.size) :
    ∃ after, targetConvs after = targetConvs targets ∧
      unpackf message.bytes message.size (formatOf (targetConvs targets)) (targetArgs targets) =
        some ((totalCopied (targetConvs targets) : ℤ), targetArgs after) ∧
      (∃ sources, List.Forall₂ Source.Carries sources after) ∧
      (∀ sources, List.Forall₂ Source.Carries sources after → ∀ buffer : Buffer,
        totalCopied (targetConvs targets) ≤ buffer.size →
        packf buffer.bytes buffer.size (formatOf (targetConvs targets)) (sourceArgs sources) =
          some ((totalCopied (targetConvs targets) : ℤ),
            message.bytes.take (totalCopied (targetConvs targets)) ++
              buffer.bytes.drop (totalCopied (targetConvs targets)))) ∧
      ∀ message' : Buffer, totalCopied (targetConvs targets) ≤ message'.size →
        unpackf message'.bytes message'.size (formatOf (targetConvs targets))
            (targetArgs targets) =
          some ((totalCopied (targetConvs targets) : ℤ), targetArgs after) →
        message'.bytes.take (totalCopied (targetConvs targets)) =
          message.bytes.take (totalCopied (targetConvs targets)) := by
  have hlong := hfits.trans message.size_le
  refine ⟨deliverAll targets message.bytes, targetConvs_deliverAll targets message.bytes,
    unpackf_deliverAll targets message hfits, ?_, ?_, ?_⟩
  · refine ⟨(deliverAll targets message.bytes).map Target.source, ?_⟩
    rw [List.forall₂_map_left_iff]
    exact List.forall₂_same.mpr fun target _ => target.carries_source
  · intro sources hcarries buffer hroom
    have hconvs := sourceConvs_of_carries hcarries
    rw [targetConvs_deliverAll] at hconvs
    have hpack := packf_sources sources buffer.size_lt buffer.size_le (by rwa [hconvs])
    rwa [hconvs, sourceBytes_of_carries hlong hcarries] at hpack
  · intro message' hfits' hunpack
    rw [unpackf_deliverAll targets message' hfits'] at hunpack
    exact take_eq_of_deliverAll (hfits'.trans message'.size_le) hlong
      (Prod.mk.inj (Option.some.inj hunpack)).2

/-- A `short` and an array of two, with a byte behind them -/
theorem packf_unpackf_short :
    ∃ after sources,
      unpackf [0xfe, 0xff, 7, 8, 9] 5 "%hd%*hhu".toList
          [.pointer 0x1000 [0, 0], .integral 2, .pointer 0x2000 [0, 0, 0]] =
        some (4, targetArgs after) ∧
      List.Forall₂ Source.Carries sources after ∧
      packf [0, 0, 0, 0] 4 "%hd%*hhu".toList (sourceArgs sources) =
        some (4, [0xfe, 0xff, 7, 8]) := by
  obtain ⟨after, -, hunpack, ⟨sources, hcarries⟩, hpack, -⟩ := packf_unpackf
    [⟨⟨.hd, none, by simp, by simp⟩, 0x1000, [0, 0], by decide⟩,
      ⟨⟨.hhu, some 2, by simp, by simp⟩, 0x2000, [0, 0, 0], by decide⟩]
    ⟨[0xfe, 0xff, 7, 8, 9], 5, by decide, by decide⟩ (by decide)
  exact ⟨after, sources, hunpack, hcarries,
    hpack sources hcarries ⟨[0, 0, 0, 0], 4, by decide, by decide⟩ (by decide)⟩

end AmdgpuFand
