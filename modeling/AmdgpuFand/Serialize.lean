import Mathlib.Tactic
import AmdgpuFand.Lib.CString
import AmdgpuFand.Lib.Memory

/-!
# Packing and unpacking messages

The model of `serialize.c` up to `packf` and `unpackf`. Both interpret a format string of
conversions `%[*]T` against a list of variadic arguments. `T` is recognised by a small automaton
that collects flags on its way; the flags give the type code, and the code gives the width of the
type and the length of its name.

Memory is LP64 and little-endian. What C leaves undefined (an argument that is not there, an
integer taken for a pointer, a copy outside an object) is `none`.
-/

namespace AmdgpuFand

open CLib

/-! ## The automaton -/

/-! The bits of `flags`: `DFA_ACCEPT` to `DFA_UNSIGNED` -/

namespace DfaFlag

def accept : UInt8 := 0x1
def reject : UInt8 := 0x2
def half0 : UInt8 := 0x4
def half1 : UInt8 := 0x8
def long0 : UInt8 := 0x10
def long1 : UInt8 := 0x20
def signed : UInt8 := 0x40
def unsigned : UInt8 := 0x80

/-- `DFA_FMTMASK` -/
def fmtmask : UInt8 := half0 ||| half1 ||| long0 ||| long1 ||| signed ||| unsigned

end DfaFlag

/-- `DFA_ANY`, the label of the edge for any character -/
def dfaAny : ℕ := 128

/-- `struct dfa_state`, by the names of its instances -/
inductive DfaState
  | reject | stateD | stateU | stateL1 | stateL0 | stateH1 | stateH0 | start
  deriving DecidableEq, Repr

/-- `struct dfa_edge`: a character code and the state it leads to -/
structure DfaEdge where
  c : ℕ
  target : DfaState

namespace DfaState

/-- The initialiser `{ 0 }`, which ends the edges of a state. The state it names is `NULL` in the
source and never entered. -/
def zeroEdge : DfaEdge := ⟨0, reject⟩

def flags : DfaState → UInt8
  | reject => DfaFlag.reject
  | stateD => DfaFlag.accept ||| DfaFlag.signed
  | stateU => DfaFlag.accept ||| DfaFlag.unsigned
  | stateL1 => DfaFlag.long1
  | stateL0 => DfaFlag.long0
  | stateH1 => DfaFlag.half1
  | stateH0 => DfaFlag.half0
  | start => 0

/-- The edges up to and including the first `{ 0 }`; the start state has none. -/
def edges : DfaState → List DfaEdge
  | reject => [zeroEdge]
  | stateD => [zeroEdge]
  | stateU => [zeroEdge]
  | stateL1 =>
    [⟨'d'.toNat, stateD⟩, ⟨'u'.toNat, stateU⟩, ⟨dfaAny, reject⟩, zeroEdge]
  | stateL0 =>
    [⟨'d'.toNat, stateD⟩, ⟨'u'.toNat, stateU⟩, ⟨'l'.toNat, stateL1⟩,
      ⟨dfaAny, reject⟩, zeroEdge]
  | stateH1 =>
    [⟨'d'.toNat, stateD⟩, ⟨'u'.toNat, stateU⟩, ⟨dfaAny, reject⟩, zeroEdge]
  | stateH0 =>
    [⟨'h'.toNat, stateH1⟩, ⟨'d'.toNat, stateD⟩, ⟨'u'.toNat, stateU⟩,
      ⟨dfaAny, reject⟩, zeroEdge]
  | start =>
    [⟨'h'.toNat, stateH0⟩, ⟨'l'.toNat, stateL0⟩, ⟨'d'.toNat, stateD⟩,
      ⟨'u'.toNat, stateU⟩, ⟨dfaAny, reject⟩]

end DfaState

/-- `dfa_edge_match` -/
def dfaEdgeMatch (ic : Char) (ec : ℕ) : Bool :=
  ec == dfaAny || ic.toNat == ec

/-- `dfa_bitflag_set` -/
def dfaBitflagSet (flags bit : UInt8) : Bool :=
  flags &&& bit != 0

/-- `dfa_accept` -/
def dfaAccept (flags : UInt8) : Bool :=
  dfaBitflagSet flags DfaFlag.accept

open DfaFlag in
/-- The flag combinations that `dfa_flags_to_fmttype` lets through -/
def validFlags : List UInt8 :=
  [signed ||| long0 ||| long1, signed ||| half0 ||| half1, signed ||| long0, signed ||| half0,
    signed, unsigned ||| long0 ||| long1, unsigned ||| half0 ||| half1, unsigned ||| long0,
    unsigned ||| half0, unsigned]

/-- `dfa_flags_to_fmttype` -/
def dfaFlagsToFmttype (flags : UInt8) : ℤ :=
  let set (bit : UInt8) : ℤ := if dfaBitflagSet flags bit then 1 else 0
  if flags &&& DfaFlag.fmtmask ∈ validFlags then
    set DfaFlag.signed * 2 + set DfaFlag.unsigned * 7 + set DfaFlag.half0 * (-1) +
      set DfaFlag.half1 * (-1) + set DfaFlag.long0 + set DfaFlag.long1
  else
    -1

/-- How one pass over the edges of a state ends -/
inductive DfaScan
  | accepted (flags : UInt8)
  | invalid
  | goto (flags : UInt8) (next : DfaState)

/-- The `for` loop of `dfa_simulate` -/
def dfaScan (current : DfaState) (flags : UInt8) (ic : Char) : List DfaEdge → DfaScan
  | [] => .goto flags current
  | edge :: edges =>
    let flags := flags ||| current.flags
    if dfaAccept flags then .accepted flags
    else if edge.c = 0 then .invalid
    else if dfaEdgeMatch ic edge.c then .goto flags edge.target
    else dfaScan current flags ic edges

/-- What stands behind `loop_end` in `dfa_simulate` -/
def dfaResult (flags : UInt8) : ℤ :=
  if dfaAccept flags then dfaFlagsToFmttype flags else -1

/-- The `while` loop of `dfa_simulate`. The string ends at its first NUL, or where the list does. -/
def dfaSimulateLoop (current : DfaState) (flags : UInt8) : List Char → ℤ
  | [] =>
    match dfaScan current flags '\x00' current.edges with
    | .accepted flags => dfaResult flags
    | .invalid => -1
    | .goto flags _ => dfaResult flags
  | c :: string =>
    match dfaScan current flags c current.edges with
    | .accepted flags => dfaResult flags
    | .invalid => -1
    | .goto flags next =>
      if c = '\x00' then dfaResult flags else dfaSimulateLoop next flags string

/-- `dfa_simulate`: the type code of the conversion at the front of a string, or -1 -/
def dfaSimulate (string : List Char) : ℤ :=
  dfaSimulateLoop .start 0 string

/-! ## Types -/

/-- `FMT_HHD` to `FMT_LLU` -/
inductive FmtType
  | hhd | hd | d | ld | lld | hhu | hu | u | lu | llu
  deriving DecidableEq, Repr

namespace FmtType

def code : FmtType → ℤ
  | hhd => 0
  | hd => 1
  | d => 2
  | ld => 3
  | lld => 4
  | hhu => 5
  | hu => 6
  | u => 7
  | lu => 8
  | llu => 9

def all : List FmtType :=
  [hhd, hd, d, ld, lld, hhu, hu, u, lu, llu]

/-- The `switch` on the type code; `none` is its `default` -/
def ofCode (fmttype : ℤ) : Option FmtType :=
  all.find? (·.code = fmttype)

end FmtType

/-- `dfa_valsize` -/
def dfaValsize (t : FmtType) : ℕ :=
  [1, 2, 4, 8, 8].getD (t.code.toNat % 5) 0

/-- `dfa_fmtlen` -/
def dfaFmtlen (t : FmtType) : ℕ :=
  [3, 2, 1, 2, 3].getD (t.code.toNat % 5) 0

/-! ## Variadic arguments -/

/-- An argument behind the format string: an integer in its eight-byte slot, or a pointer with its
address and the bytes of its object from there on -/
inductive VaArg
  | integral (x : BitVec 64)
  | pointer (addr : BitVec 64) (mem : List UInt8)
  deriving DecidableEq, Repr

/-- The bits in the slot of an argument -/
def VaArg.bits : VaArg → BitVec 64
  | integral x => x
  | pointer addr _ => addr

/-- The repeat count of a conversion, with the rest of the format, the arguments taken for it and
those left: `if(*fmt == '*')`. Without `*` the count is one. -/
def vaRepeat (fmt : List Char) (args : List VaArg) :
    Option (ℕ × List Char × List VaArg × List VaArg) :=
  if fmt.headD '\x00' = '*' then
    match args with
    | [] => none
    | arg :: args => some (arg.bits.toNat % 2 ^ 32, fmt.drop 1, [arg], args)
  else
    some (1, fmt, [], args)

/-- `valist_strip_integral`: the bytes of the value in the union, and the arguments left -/
def valistStripIntegral (t : FmtType) : List VaArg → Option (List UInt8 × List VaArg)
  | [] => none
  | arg :: args => some (Memory.leBytes (dfaValsize t) arg.bits.toNat, args)

/-- `valist_strip_pointer`: the address, the object behind it, and the arguments left -/
def valistStripPointer : List VaArg → Option (BitVec 64 × List UInt8 × List VaArg)
  | .pointer addr mem :: args => some (addr, mem, args)
  | _ => none

/-- `srcaddr`: a single value is copied from the union, several through a pointer. -/
def packSource (t : FmtType) (nrepeat : ℕ) (args : List VaArg) :
    Option (List UInt8 × List VaArg) :=
  if nrepeat = 1 then valistStripIntegral t args
  else (valistStripPointer args).map fun (_, mem, args) => (mem, args)

/-! ## `packf` and `unpackf` -/

/-- The `while` loop of `packf`: the return value and the buffer. Every conversion takes two
characters of the format or more, so that its length is fuel enough. -/
def packfLoop (bufsize : ℕ) : ℕ → List UInt8 → List Char → List VaArg → ℕ →
    Option (ℤ × List UInt8)
  | 0, _, _, _, _ => none
  | fuel + 1, buffer, fmt, args, nwritten =>
    if fmt.headD '\x00' = '\x00' then some (nwritten, buffer)
    else if fmt.headD '\x00' ≠ '%' then some (-1, buffer)
    else do
      let (nrepeat, fmt, _, args) ← vaRepeat (fmt.drop 1) args
      if nrepeat = 0 then some (-1, buffer)
      else match FmtType.ofCode (dfaSimulate fmt) with
        | none => some (-1, buffer)
        | some t => do
          let (src, args) ← packSource t nrepeat args
          let nbytes := nrepeat * dfaValsize t % 2 ^ 32
          if bufsize < (nwritten + nbytes) % 2 ^ 64 then some (-e2big, buffer)
          else do
            let bytes ← Memory.load src 0 nbytes
            let buffer ← Memory.store buffer nwritten bytes
            packfLoop bufsize fuel buffer (fmt.drop (dfaFmtlen t)) args (nwritten + nbytes)

/-- `packf` -/
def packf (buffer : List UInt8) (bufsize : ℕ) (fmt : List Char) (args : List VaArg) :
    Option (ℤ × List UInt8) :=
  packfLoop bufsize (fmt.length + 1) buffer fmt args 0

/-- The `while` loop of `unpackf`: the return value and the arguments with what they point at. -/
def unpackfLoop (buffer : List UInt8) (bufsize : ℕ) : ℕ → List Char → List VaArg → ℕ →
    Option (ℤ × List VaArg)
  | 0, _, _, _ => none
  | fuel + 1, fmt, args, nread =>
    if fmt.headD '\x00' = '\x00' then some (nread, args)
    else if fmt.headD '\x00' ≠ '%' then some (-1, args)
    else do
      let (nrepeat, fmt, count, args') ← vaRepeat (fmt.drop 1) args
      if nrepeat = 0 then some (-1, args)
      else match FmtType.ofCode (dfaSimulate fmt) with
        | none => some (-1, args)
        | some t => do
          let (addr, mem, rest) ← valistStripPointer args'
          let nbytes := nrepeat * dfaValsize t % 2 ^ 32
          if bufsize < (nread + nbytes) % 2 ^ 64 then some (-e2big, args)
          else do
            let bytes ← Memory.load buffer nread nbytes
            let mem ← Memory.store mem 0 bytes
            let (ret, rest) ←
              unpackfLoop buffer bufsize fuel (fmt.drop (dfaFmtlen t)) rest (nread + nbytes)
            some (ret, count ++ .pointer addr mem :: rest)

/-- `unpackf` -/
def unpackf (buffer : List UInt8) (bufsize : ℕ) (fmt : List Char) (args : List VaArg) :
    Option (ℤ × List VaArg) :=
  unpackfLoop buffer bufsize (fmt.length + 1) fmt args 0

/-! ## Conversions at the front of a format -/

/-- The name of a type in a format -/
def FmtType.text : FmtType → List Char
  | hhd => "hhd".toList
  | hd => "hd".toList
  | d => "d".toList
  | ld => "ld".toList
  | lld => "lld".toList
  | hhu => "hhu".toList
  | hu => "hu".toList
  | u => "u".toList
  | lu => "lu".toList
  | llu => "llu".toList

/-- The automaton recognises a type by its name, whatever follows. -/
theorem dfaSimulate_text (t : FmtType) (rest : List Char) :
    FmtType.ofCode (dfaSimulate (t.text ++ rest)) = some t := by
  cases t <;> cases rest <;> rfl

theorem drop_text (t : FmtType) (rest : List Char) :
    (t.text ++ rest).drop (dfaFmtlen t) = rest := by
  cases t <;> rfl

theorem vaRepeat_text (t : FmtType) (rest : List Char) (args : List VaArg) :
    vaRepeat (t.text ++ rest) args = some (1, t.text ++ rest, [], args) := by
  have hhead : (t.text ++ rest).headD '\x00' ≠ '*' := by
    cases t <;> simp [FmtType.text]
  unfold vaRepeat
  rw [if_neg hhead]

theorem vaRepeat_star (fmt : List Char) (n : ℕ) (hn : n < 2 ^ 32) (args : List VaArg) :
    vaRepeat ('*' :: fmt) (.integral (BitVec.ofNat 64 n) :: args) =
      some (n, fmt, [.integral (BitVec.ofNat 64 n)], args) := by
  have hbits : (BitVec.ofNat 64 n).toNat % 2 ^ 32 = n := by
    rw [BitVec.toNat_ofNat]
    omega
  unfold vaRepeat
  rw [List.headD_cons, if_pos rfl]
  simp only [VaArg.bits, hbits, List.drop_one, List.tail_cons]

theorem dfaValsize_pos (t : FmtType) : 0 < dfaValsize t := by
  cases t <;> decide

theorem dfaValsize_le (t : FmtType) : dfaValsize t ≤ 8 := by
  cases t <;> decide

/-- One conversion of `packf`, once its count and its source are known. -/
theorem packfLoop_conversion {bufsize fuel nwritten nrepeat : ℕ} {buffer src : List UInt8}
    {fmt : List Char} {t : FmtType} {rest : List Char} {args count args' args'' : List VaArg}
    (hrepeat : vaRepeat fmt args = some (nrepeat, t.text ++ rest, count, args'))
    (hpos : nrepeat ≠ 0)
    (hsrc : packSource t nrepeat args' = some (src, args'')) :
    packfLoop bufsize (fuel + 1) buffer ('%' :: fmt) args nwritten =
      if bufsize < (nwritten + nrepeat * dfaValsize t % 2 ^ 32) % 2 ^ 64 then
        some (-e2big, buffer)
      else
        (Memory.load src 0 (nrepeat * dfaValsize t % 2 ^ 32)).bind fun bytes =>
          (Memory.store buffer nwritten bytes).bind fun buffer =>
            packfLoop bufsize fuel buffer rest args''
              (nwritten + nrepeat * dfaValsize t % 2 ^ 32) := by
  rw [packfLoop, List.headD_cons, if_neg (by decide), if_neg (by decide), List.drop_one,
    List.tail_cons, hrepeat]
  simp only [Option.bind_eq_bind, Option.bind_some, if_neg hpos, dfaSimulate_text, hsrc, drop_text]

/-- One conversion of `unpackf`, once its count and its destination are known. -/
theorem unpackfLoop_conversion {bufsize fuel nread nrepeat : ℕ} {buffer mem : List UInt8}
    {fmt : List Char} {t : FmtType} {rest : List Char} {args count args' : List VaArg}
    {addr : BitVec 64}
    (hrepeat :
      vaRepeat fmt args = some (nrepeat, t.text ++ rest, count, .pointer addr mem :: args'))
    (hpos : nrepeat ≠ 0) :
    unpackfLoop buffer bufsize (fuel + 1) ('%' :: fmt) args nread =
      if bufsize < (nread + nrepeat * dfaValsize t % 2 ^ 32) % 2 ^ 64 then some (-e2big, args)
      else
        (Memory.load buffer nread (nrepeat * dfaValsize t % 2 ^ 32)).bind fun bytes =>
          (Memory.store mem 0 bytes).bind fun mem =>
            (unpackfLoop buffer bufsize fuel rest args'
              (nread + nrepeat * dfaValsize t % 2 ^ 32)).bind fun (ret, rest) =>
                some (ret, count ++ .pointer addr mem :: rest) := by
  rw [unpackfLoop, List.headD_cons, if_neg (by decide), if_neg (by decide), List.drop_one,
    List.tail_cons, hrepeat]
  simp only [Option.bind_eq_bind, Option.bind_some, if_neg hpos, dfaSimulate_text,
    valistStripPointer, drop_text]

end AmdgpuFand
