import Mathlib.Tactic
import AmdgpuFand.Formats

/-!
# What `packf` writes, `unpackf` reads

The abstract side of a format is a list of items: scalars, and arrays of two elements or more. An
item has its text in the format, its arguments on the packing side, its bytes on the wire, and,
together with a destination, its arguments on the unpacking side.

An item is a source of `Formats.lean` whose size does not wrap, and with a destination it is a
target, so what the loops do with a list of items is known. Here the bytes are those of values.
-/

namespace AmdgpuFand

open CLib

/-! ## Items -/

/-- What a conversion stands for. A scalar is whatever its argument slot holds; an array of `t` may
have more memory behind its elements. -/
inductive Item
  | scalar (t : FmtType) (x : BitVec 64)
  | array (t : FmtType) (addr : BitVec 64) (xs : List (BitVec (8 * dfaValsize t)))
    (behind : List UInt8) (two_le : 2 ≤ xs.length) (fits : xs.length * dfaValsize t < 2 ^ 32)

namespace Item

/-- `%T` or `%*T` -/
def fmt : Item → List Char
  | scalar t _ => '%' :: t.text
  | array t _ _ _ _ _ => '%' :: '*' :: t.text

/-- The bytes of the value, or of the values one after the other -/
def bytes : Item → List UInt8
  | scalar t x => Memory.leBytes (dfaValsize t) x.toNat
  | array t _ xs _ _ _ => xs.flatMap fun x => Memory.leBytes (dfaValsize t) x.toNat

/-- The size of the conversion -/
def size : Item → ℕ
  | scalar t _ => dfaValsize t
  | array t _ xs _ _ _ => xs.length * dfaValsize t

/-- The count that goes with a `*` -/
def count : Item → List VaArg
  | scalar _ _ => []
  | array _ _ xs _ _ _ => [.integral (BitVec.ofNat 64 xs.length)]

/-- The arguments of `packf` for this item -/
def packArgs : Item → List VaArg
  | scalar _ x => [.integral x]
  | array t addr xs behind two_le fits =>
    [.integral (BitVec.ofNat 64 xs.length),
      .pointer addr ((array t addr xs behind two_le fits).bytes ++ behind)]

/-- A destination holds the item: the scalar modulo the width of its type, or every element. -/
def Delivered : Item → List UInt8 → Prop
  | scalar t x, mem =>
    (Memory.load mem 0 (dfaValsize t)).map Memory.leValue =
      some (x.toNat % 2 ^ (8 * dfaValsize t))
  | array t _ xs _ _ _, mem =>
    ∀ i, (h : i < xs.length) →
      (Memory.load mem (i * dfaValsize t) (dfaValsize t)).map Memory.leValue = some xs[i].toNat

theorem length_flatMap_leBytes {n w : ℕ} (xs : List (BitVec w)) :
    (xs.flatMap fun x => Memory.leBytes n x.toNat).length = xs.length * n := by
  rw [List.length_flatMap]
  simp

@[simp] theorem length_bytes (item : Item) : item.bytes.length = item.size := by
  cases item with
  | scalar t x => exact Memory.leBytes_length _ _
  | array t addr xs behind two_le fits => exact length_flatMap_leBytes xs

theorem size_lt (item : Item) : item.size < 2 ^ 32 := by
  cases item with
  | scalar t x => exact lt_of_le_of_lt (dfaValsize_le t) (by decide)
  | array t addr xs behind two_le fits => exact fits

/-- Any destination that begins with the bytes of an item holds the item. -/
theorem delivered_bytes (item : Item) (behind : List UInt8) :
    item.Delivered (item.bytes ++ behind) := by
  cases item with
  | scalar t x =>
    have hload := Memory.load_zero (Memory.leBytes (dfaValsize t) x.toNat) behind
    rw [Memory.leBytes_length] at hload
    simp only [Delivered, bytes, hload, Option.map_some, Memory.leValue_leBytes, pow_mul]
    norm_num
  | array t addr xs more two_le fits =>
    intro i h
    simp only [bytes]
    -- the bytes in front of element `i`, its own bytes, and those behind it
    have hsplit : xs = xs.take i ++ xs[i] :: xs.drop (i + 1) := by
      rw [List.getElem_cons_drop, List.take_append_drop]
    have hbytes : (xs.flatMap fun x => Memory.leBytes (dfaValsize t) x.toNat) ++ behind =
        ((xs.take i).flatMap fun x => Memory.leBytes (dfaValsize t) x.toNat) ++
          Memory.leBytes (dfaValsize t) xs[i].toNat ++
          (((xs.drop (i + 1)).flatMap fun x => Memory.leBytes (dfaValsize t) x.toNat) ++
            behind) := by
      conv_lhs => rw [hsplit]
      rw [List.flatMap_append, List.flatMap_cons]
      simp only [List.append_assoc]
    have hfront : ((xs.take i).flatMap fun x => Memory.leBytes (dfaValsize t) x.toNat).length =
        i * dfaValsize t := by
      rw [length_flatMap_leBytes, List.length_take, min_eq_left h.le]
    have hload := Memory.load_append
      ((xs.take i).flatMap fun x => Memory.leBytes (dfaValsize t) x.toNat)
      (Memory.leBytes (dfaValsize t) xs[i].toNat)
      (((xs.drop (i + 1)).flatMap fun x => Memory.leBytes (dfaValsize t) x.toNat) ++ behind)
    rw [hfront, Memory.leBytes_length, ← hbytes] at hload
    rw [hload, Option.map_some, Memory.leValue_leBytes, Nat.mod_eq_of_lt]
    calc xs[i].toNat < 2 ^ (8 * dfaValsize t) := xs[i].isLt
      _ = 256 ^ dfaValsize t := by rw [pow_mul]; norm_num

/-! ### Items as sources -/

/-- The conversion of an item -/
def conv : Item → Conversion
  | scalar t _ => ⟨t, none, nofun, nofun⟩
  | array t _ xs _ two_le fits =>
    ⟨t, some xs.length, by rintro n ⟨⟩; omega, by
      rintro n ⟨⟩
      exact lt_of_le_of_lt (Nat.le_mul_of_pos_right _ (dfaValsize_pos t)) fits⟩

theorem conv_fmt (item : Item) : item.conv.fmt = item.fmt := by
  cases item <;> rfl

theorem conv_size (item : Item) : item.conv.size = item.size := by
  cases item with
  | scalar t x => exact one_mul _
  | array t addr xs behind two_le fits => rfl

theorem conv_copied (item : Item) : item.conv.copied = item.size := by
  rw [Conversion.copied, conv_size, Nat.mod_eq_of_lt item.size_lt]

theorem conv_countArgs (item : Item) : item.conv.countArgs = item.count := by
  cases item <;> rfl

/-- An item with its argument -/
def source : Item → Source
  | scalar t x => ⟨(scalar t x).conv, x, [], fun h => absurd rfl h⟩
  | array t addr xs behind two_le fits =>
    ⟨(array t addr xs behind two_le fits).conv, addr,
      (array t addr xs behind two_le fits).bytes ++ behind, fun _ => by
        rw [conv_size, List.length_append, length_bytes]
        exact Nat.le_add_right _ _⟩

theorem source_conv (item : Item) : item.source.conv = item.conv := by
  cases item <;> rfl

theorem source_args (item : Item) : item.source.args = item.packArgs := by
  cases item <;> rfl

theorem source_bytes (item : Item) : item.source.bytes = item.bytes := by
  cases item with
  | scalar t x => rfl
  | array t addr xs behind two_le fits =>
    have hcount : ¬ (array t addr xs behind two_le fits).source.conv.repeats = 1 := by
      change ¬ xs.length = 1
      omega
    have htake : ((array t addr xs behind two_le fits).bytes ++ behind).take
        (array t addr xs behind two_le fits).size =
          (array t addr xs behind two_le fits).bytes := by
      rw [← length_bytes, List.take_left]
    rw [Source.bytes, if_neg hcount, source_conv, conv_copied]
    exact htake

end Item

/-! ## Items with their destinations -/

/-- An item and the object it is unpacked to, which has room for it -/
structure Field where
  item : Item
  addr : BitVec 64
  mem : List UInt8
  room : item.size ≤ mem.length

namespace Field

/-- The arguments of `unpackf` for this field when its object holds `mem` -/
def args (field : Field) (mem : List UInt8) : List VaArg :=
  field.item.count ++ [.pointer field.addr mem]

/-- The object with the item copied to its front -/
def filled (field : Field) : List UInt8 :=
  field.item.bytes ++ field.mem.drop field.item.size

theorem store_bytes (field : Field) {bytes : List UInt8} (h : bytes.length = field.item.size) :
    Memory.store field.mem 0 bytes = some (bytes ++ field.mem.drop field.item.size) := by
  rw [Memory.store_zero (h ▸ field.room), h]

/-- A field as a target -/
def target (field : Field) : Target :=
  ⟨field.item.conv, field.addr, field.mem, by rw [Item.conv_size]; exact field.room⟩

theorem target_args (field : Field) (mem : List UInt8) :
    field.target.args mem = field.args mem := by
  rw [Target.args, target, Item.conv_countArgs, args]

/-- `unpackf` takes the bytes at its position to the destination at the front, or gives up. -/
theorem unpackfLoop_field (field : Field) {bufsize fuel nread : ℕ} {buffer : List UInt8}
    {fmt : List Char} {rest : List VaArg} :
    unpackfLoop buffer bufsize (fuel + 1) (field.item.fmt ++ fmt) (field.args field.mem ++ rest)
        nread =
      if bufsize < (nread + field.item.size) % 2 ^ 64 then
        some (-e2big, field.args field.mem ++ rest)
      else
        (Memory.load buffer nread field.item.size).bind fun bytes =>
          (Memory.store field.mem 0 bytes).bind fun mem =>
            (unpackfLoop buffer bufsize fuel fmt rest (nread + field.item.size)).bind
              fun (ret, rest) => some (ret, field.args mem ++ rest) := by
  have hturn := @Target.unpackfLoop_target field.target bufsize fuel nread buffer fmt rest
  have hcopied : field.target.conv.copied = field.item.size := field.item.conv_copied
  have hfmt : field.target.conv.fmt = field.item.fmt := field.item.conv_fmt
  simp only [target_args, hcopied, hfmt] at hturn
  exact hturn

end Field

/-! ## Packing a list of items -/

/-- The format string of a list of items -/
def itemsFmt (items : List Item) : List Char :=
  items.flatMap Item.fmt

/-- The arguments of `packf` -/
def itemsPackArgs (items : List Item) : List VaArg :=
  items.flatMap Item.packArgs

/-- The message -/
def itemsBytes (items : List Item) : List UInt8 :=
  items.flatMap Item.bytes

/-- The sum of the conversion sizes -/
def itemsSize (items : List Item) : ℕ :=
  (items.map Item.size).sum

theorem itemsFmt_cons (item : Item) (items : List Item) (fmt : List Char) :
    itemsFmt (item :: items) ++ fmt = item.fmt ++ (itemsFmt items ++ fmt) := by
  rw [itemsFmt, List.flatMap_cons, List.append_assoc, ← itemsFmt]

theorem itemsBytes_cons (item : Item) (items : List Item) :
    itemsBytes (item :: items) = item.bytes ++ itemsBytes items :=
  List.flatMap_cons

theorem itemsSize_cons (item : Item) (items : List Item) :
    itemsSize (item :: items) = item.size + itemsSize items := by
  rw [itemsSize, List.map_cons, List.sum_cons, itemsSize]

/-- The items as sources -/
def itemsSources (items : List Item) : List Source :=
  items.map Item.source

theorem formatOf_itemsSources (items : List Item) :
    formatOf (sourceConvs (itemsSources items)) = itemsFmt items := by
  rw [formatOf, sourceConvs, itemsSources, List.map_map, List.flatMap_map, itemsFmt]
  refine List.flatMap_congr fun item _ => ?_
  rw [Function.comp_apply, item.source_conv, item.conv_fmt]

theorem sourceArgs_itemsSources (items : List Item) :
    sourceArgs (itemsSources items) = itemsPackArgs items := by
  rw [sourceArgs, itemsSources, List.flatMap_map, itemsPackArgs]
  exact List.flatMap_congr fun item _ => item.source_args

theorem sourceBytes_itemsSources (items : List Item) :
    sourceBytes (itemsSources items) = itemsBytes items := by
  rw [sourceBytes, itemsSources, List.flatMap_map, itemsBytes]
  exact List.flatMap_congr fun item _ => item.source_bytes

theorem totalCopied_itemsSources (items : List Item) :
    totalCopied (sourceConvs (itemsSources items)) = itemsSize items := by
  rw [totalCopied, sourceConvs, itemsSources, List.map_map, List.map_map, itemsSize]
  congr 1
  refine List.map_congr_left fun item _ => ?_
  rw [Function.comp_apply, Function.comp_apply, item.source_conv, item.conv_copied]

theorem length_le_itemsFmt (items : List Item) : items.length ≤ (itemsFmt items).length := by
  have hle := length_sources_le (itemsSources items)
  rwa [formatOf_itemsSources, itemsSources, List.length_map] at hle

/-! ## Unpacking a list of fields -/

/-- The items of a list of fields -/
def fieldsItems (fields : List Field) : List Item :=
  fields.map Field.item

/-- The arguments of `unpackf` before the call -/
def fieldsArgs (fields : List Field) : List VaArg :=
  fields.flatMap fun field => field.args field.mem

/-- The arguments of `unpackf` with every item delivered -/
def fieldsFilled (fields : List Field) : List VaArg :=
  fields.flatMap fun field => field.args field.filled

theorem fieldsItems_cons (field : Field) (fields : List Field) :
    fieldsItems (field :: fields) = field.item :: fieldsItems fields :=
  List.map_cons

theorem fieldsArgs_cons (field : Field) (fields : List Field) (args : List VaArg) :
    fieldsArgs (field :: fields) ++ args =
      field.args field.mem ++ (fieldsArgs fields ++ args) := by
  rw [fieldsArgs, List.flatMap_cons, List.append_assoc, ← fieldsArgs]

theorem fieldsFilled_cons (field : Field) (fields : List Field) (args : List VaArg) :
    fieldsFilled (field :: fields) ++ args =
      field.args field.filled ++ (fieldsFilled fields ++ args) := by
  rw [fieldsFilled, List.flatMap_cons, List.append_assoc, ← fieldsFilled]

/-- `unpackf` looks at no byte from `bufsize` on, whatever its format and arguments are. -/
theorem unpackfLoop_take {buffer : List UInt8} {bufsize : ℕ} (hsmall : bufsize < 2 ^ 63)
    (hbuf : bufsize ≤ buffer.length) (fuel : ℕ) (fmt : List Char) (args : List VaArg) (nread : ℕ)
    (hle : nread ≤ bufsize) :
    unpackfLoop (buffer.take bufsize) bufsize fuel fmt args nread =
      unpackfLoop buffer bufsize fuel fmt args nread := by
  induction fuel generalizing fmt args nread with
  | zero => rfl
  | succ fuel ih =>
    unfold unpackfLoop
    refine ite_congr rfl (fun _ => rfl) fun _ => ite_congr rfl (fun _ => rfl) fun _ => ?_
    refine Option.bind_congr fun count _ => ?_
    obtain ⟨nrepeat, fmt, count, args'⟩ := count
    refine ite_congr rfl (fun _ => rfl) fun _ => ?_
    cases hfmt : FmtType.ofCode (dfaSimulate fmt) with
    | none => rfl
    | some t =>
      refine Option.bind_congr fun destination _ => ?_
      obtain ⟨addr, mem, rest⟩ := destination
      refine ite_congr rfl (fun _ => rfl) fun hfits => ?_
      have hnbytes : nrepeat * dfaValsize t % 2 ^ 32 < 2 ^ 32 := Nat.mod_lt _ (by decide)
      rw [Nat.mod_eq_of_lt (by omega)] at hfits
      rw [Memory.load_take (by omega) hbuf]
      refine Option.bind_congr fun bytes _ => Option.bind_congr fun mem _ => ?_
      rw [ih _ _ _ (by omega)]

/-- Where the items stand in the buffer, every field is filled, and the loop goes on behind them. -/
theorem unpackfLoop_fields (fields : List Field) {buffer : List UInt8} {bufsize fuel : ℕ}
    {fmt : List Char} {args : List VaArg} (front behind : List UInt8) (hsmall : bufsize < 2 ^ 63)
    (hfits : front.length + itemsSize (fieldsItems fields) ≤ bufsize)
    (hbuffer : buffer = front ++ itemsBytes (fieldsItems fields) ++ behind) :
    unpackfLoop buffer bufsize (fuel + fields.length) (itemsFmt (fieldsItems fields) ++ fmt)
        (fieldsArgs fields ++ args) front.length =
      (unpackfLoop buffer bufsize fuel fmt args
        (front.length + itemsSize (fieldsItems fields))).bind
          fun (ret, rest) => some (ret, fieldsFilled fields ++ rest) := by
  induction fields generalizing front with
  | nil =>
    simp only [fieldsItems, List.map_nil, itemsFmt, fieldsArgs, itemsSize, fieldsFilled,
      List.flatMap_nil, List.nil_append, List.length_nil, List.sum_nil, add_zero]
    exact (Option.bind_fun_some _).symm
  | cons field fields ih =>
    rw [fieldsItems_cons, itemsSize_cons] at hfits
    rw [fieldsItems_cons, itemsBytes_cons, ← List.append_assoc] at hbuffer
    have hlen : front.length + field.item.size = (front ++ field.item.bytes).length := by
      rw [List.length_append, Item.length_bytes]
    have hload : Memory.load buffer front.length field.item.size = some field.item.bytes := by
      rw [hbuffer, List.append_assoc, ← Item.length_bytes, Memory.load_append]
    have hrec := ih (front ++ field.item.bytes) (by omega) hbuffer
    rw [fieldsItems_cons, itemsFmt_cons, fieldsArgs_cons, List.length_cons, ← add_assoc,
      Field.unpackfLoop_field, if_neg (by omega), hload, Option.bind_some,
      field.store_bytes field.item.length_bytes, Option.bind_some, hlen, hrec, itemsSize_cons,
      ← add_assoc, hlen, Option.bind_assoc]
    refine Option.bind_congr fun ⟨ret, rest⟩ _ => ?_
    simp only [fieldsFilled_cons]
    rfl

/-- The fields as targets -/
def fieldsTargets (fields : List Field) : List Target :=
  fields.map Field.target

theorem formatOf_fieldsTargets (fields : List Field) :
    formatOf (targetConvs (fieldsTargets fields)) = itemsFmt (fieldsItems fields) := by
  rw [formatOf, targetConvs, fieldsTargets, List.map_map, List.flatMap_map, itemsFmt, fieldsItems,
    List.flatMap_map]
  exact List.flatMap_congr fun field _ => field.item.conv_fmt

theorem targetArgs_fieldsTargets (fields : List Field) :
    targetArgs (fieldsTargets fields) = fieldsArgs fields := by
  rw [targetArgs, fieldsTargets, List.flatMap_map, fieldsArgs]
  exact List.flatMap_congr fun field _ => field.target_args field.mem

theorem totalCopied_fieldsTargets (fields : List Field) :
    totalCopied (targetConvs (fieldsTargets fields)) = itemsSize (fieldsItems fields) := by
  rw [totalCopied, targetConvs, fieldsTargets, List.map_map, List.map_map, itemsSize, fieldsItems,
    List.map_map]
  congr 1
  exact List.map_congr_left fun field _ => field.item.conv_copied

/-! ## Whole calls -/

/-- `packf` writes the message to the front of a buffer that has room for it. -/
theorem packf_items (items : List Item) {buffer : List UInt8} {bufsize : ℕ}
    (hsmall : bufsize < 2 ^ 63) (hbuf : bufsize ≤ buffer.length)
    (hfits : itemsSize items ≤ bufsize) :
    packf buffer bufsize (itemsFmt items) (itemsPackArgs items) =
      some ((itemsSize items : ℤ), itemsBytes items ++ buffer.drop (itemsSize items)) := by
  rw [← totalCopied_itemsSources] at hfits
  have hpack := packf_sources (itemsSources items) hsmall hbuf hfits
  rwa [formatOf_itemsSources, sourceArgs_itemsSources, sourceBytes_itemsSources,
    totalCopied_itemsSources] at hpack

/-- `unpackf` fills every field from a buffer that begins with the message. -/
theorem unpackf_fields (fields : List Field) {bufsize : ℕ} (behind : List UInt8)
    (hsmall : bufsize < 2 ^ 63) (hfits : itemsSize (fieldsItems fields) ≤ bufsize) :
    unpackf (itemsBytes (fieldsItems fields) ++ behind) bufsize (itemsFmt (fieldsItems fields))
        (fieldsArgs fields) =
      some ((itemsSize (fieldsItems fields) : ℤ), fieldsFilled fields) := by
  obtain ⟨k, hk⟩ := Nat.exists_eq_add_of_le (length_le_itemsFmt (fieldsItems fields))
  have hfuel : (itemsFmt (fieldsItems fields)).length + 1 = k + 1 + fields.length := by
    rw [hk, fieldsItems, List.length_map]
    omega
  have hloop := @unpackfLoop_fields fields (itemsBytes (fieldsItems fields) ++ behind) bufsize
    (k + 1) [] [] [] behind hsmall (by simpa using hfits) rfl
  rw [List.append_nil, List.append_nil, ← hfuel, List.length_nil, zero_add] at hloop
  rw [unpackf, hloop]
  simp [unpackfLoop]

/-- An object and the size that is passed for it. No object is larger than `PTRDIFF_MAX`. -/
structure Buffer where
  bytes : List UInt8
  size : ℕ
  size_le : size ≤ bytes.length
  object : bytes.length < 2 ^ 63

theorem Buffer.size_lt (buffer : Buffer) : buffer.size < 2 ^ 63 :=
  lt_of_le_of_lt buffer.size_le buffer.object

/-- `unpackf` undoes `packf`: in a buffer with room for all conversions both return the sum of the
sizes and every destination holds what was packed for it. In a smaller one both return `-E2BIG`;
`packf` keeps every byte from `bufsize` on, and `unpackf` does the same on an object that ends
there. -/
theorem unpackf_packf (fields : List Field) (buffer : Buffer) :
    (itemsSize (fieldsItems fields) ≤ buffer.size →
      ∃ packed, packf buffer.bytes buffer.size (itemsFmt (fieldsItems fields))
          (itemsPackArgs (fieldsItems fields)) =
            some ((itemsSize (fieldsItems fields) : ℤ), packed) ∧
        unpackf packed buffer.size (itemsFmt (fieldsItems fields)) (fieldsArgs fields) =
          some ((itemsSize (fieldsItems fields) : ℤ), fieldsFilled fields) ∧
        ∀ field ∈ fields, field.item.Delivered field.filled) ∧
    (buffer.size < itemsSize (fieldsItems fields) →
      (∃ packed, packf buffer.bytes buffer.size (itemsFmt (fieldsItems fields))
          (itemsPackArgs (fieldsItems fields)) = some (-e2big, packed) ∧
        packed.length = buffer.bytes.length ∧
        packed.drop buffer.size = buffer.bytes.drop buffer.size) ∧
      ∃ after, unpackf buffer.bytes buffer.size (itemsFmt (fieldsItems fields))
          (fieldsArgs fields) = some (-e2big, after) ∧
        unpackf (buffer.bytes.take buffer.size) buffer.size (itemsFmt (fieldsItems fields))
          (fieldsArgs fields) = some (-e2big, after)) := by
  have hsmall := buffer.size_lt
  refine ⟨?_, ?_⟩
  · intro hfits
    refine ⟨_, packf_items _ hsmall buffer.size_le hfits, unpackf_fields fields _ hsmall hfits, ?_⟩
    intro field _
    exact field.item.delivered_bytes _
  · intro hbig
    refine ⟨?_, ?_⟩
    · have hpack := packf_sources_e2big (itemsSources (fieldsItems fields)) hsmall buffer.size_le
        (by rwa [totalCopied_itemsSources])
      rwa [formatOf_itemsSources, sourceArgs_itemsSources] at hpack
    · obtain ⟨after, hafter⟩ := unpackf_targets (fieldsTargets fields) hsmall buffer.size_le
      rw [totalCopied_fieldsTargets, if_pos hbig, formatOf_fieldsTargets,
        targetArgs_fieldsTargets] at hafter
      refine ⟨after, hafter, ?_⟩
      rw [unpackf, unpackfLoop_take hsmall buffer.size_le _ _ _ _ (Nat.zero_le _)]
      exact hafter

end AmdgpuFand
