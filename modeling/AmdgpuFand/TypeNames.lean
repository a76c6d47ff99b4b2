import AmdgpuFand.Hwmon
import AmdgpuFand.Lib.Automaton
import AmdgpuFand.Serialize

/-!
# The names of the types

What the automaton of `serialize.c` recognises: a string has a type in front of it if and only if
it begins with one of the ten names, and the type code is the one of that name.

`dfaSimulate` in the model of `packf` works on the characters of a string. Here the string is in
memory, a terminator and whatever follows behind it, and reading beyond the object is `none`. The
loop is then shown to be the run of a `Collector` that collects flags.
-/

namespace AmdgpuFand

/-! ## Strings in memory -/

/-- The `for` loop of `dfa_simulate`. `*string` is read to match an edge, and not before. -/
def dfaScanAt (current : DfaState) (flags : UInt8) (string : List UInt8) :
    List DfaEdge → Option DfaScan
  | [] => some (.goto flags current)
  | edge :: edges =>
    let flags := flags ||| current.flags
    if dfaAccept flags then some (.accepted flags)
    else if edge.c = 0 then some .invalid
    else
      match string with
      | [] => none
      | ic :: _ =>
        if dfaEdgeMatch (charOf ic) edge.c then some (.goto flags edge.target)
        else dfaScanAt current flags string edges

/-- `dfa_simulate`, from `current` on, on the bytes of an object from `string` on -/
def dfaSimulateAt (current : DfaState) (flags : UInt8) : List UInt8 → Option ℤ
  | [] =>
    match dfaScanAt current flags [] current.edges with
    | some (.accepted flags) => some (dfaResult flags)
    | some .invalid => some (-1)
    | _ => none
  | c :: string =>
    match dfaScanAt current flags (c :: string) current.edges with
    | some (.accepted flags) => some (dfaResult flags)
    | some .invalid => some (-1)
    | some (.goto flags next) =>
      if c = 0 then some (dfaResult flags) else dfaSimulateAt next flags string
    | none => none

theorem dfaScanAt_cons (current : DfaState) (flags ic : UInt8) (string : List UInt8)
    (edges : List DfaEdge) :
    dfaScanAt current flags (ic :: string) edges =
      some (dfaScan current flags (charOf ic) edges) := by
  induction edges generalizing flags with
  | nil => rfl
  | cons edge edges ih =>
    rw [dfaScanAt, dfaScan]
    split_ifs
    · rfl
    · rfl
    · rfl
    · exact ih _

theorem charOf_eq_nul_iff {b : UInt8} : charOf b = '\x00' ↔ b = 0 := by
  constructor
  · intro h
    rw [← byteOf_charOf b, h]
    rfl
  · rintro rfl
    rfl

/-- Nothing behind the terminator is read, and what comes of it is what `dfaSimulate` says. -/
theorem dfaSimulateAt_terminated {s : List UInt8} (hs : 0 ∉ s) (behind : List UInt8)
    (current : DfaState) (flags : UInt8) :
    dfaSimulateAt current flags (s ++ 0 :: behind) =
      some (dfaSimulateLoop current flags (s.map charOf)) := by
  induction s generalizing current flags with
  | nil =>
    rw [List.nil_append, List.map_nil, dfaSimulateAt, dfaSimulateLoop, dfaScanAt_cons]
    rcases hscan : dfaScan current flags '\x00' current.edges with flags' | _ | ⟨flags', next⟩
    all_goals rw [charOf_eq_nul_iff.mpr rfl, hscan]
    dsimp only
    rw [if_pos rfl]
  | cons c s ih =>
    rw [List.mem_cons, not_or] at hs
    obtain ⟨hc, hs⟩ := hs
    have hnul : charOf c ≠ '\x00' := fun h => hc (charOf_eq_nul_iff.mp h).symm
    rw [List.cons_append, List.map_cons, dfaSimulateAt, dfaSimulateLoop, dfaScanAt_cons]
    rcases hscan : dfaScan current flags (charOf c) current.edges with flags' | _ | ⟨flags', next⟩
    · rfl
    · rfl
    · dsimp only
      rw [if_neg (Ne.symm hc), if_neg hnul]
      exact ih hs next flags'

/-! ## The automaton as a collector -/

/-- The states with the flags that they add. The edge for any character leads to `dfa_reject`, where
there is no step. -/
def dfa : Collector DfaState Char UInt8 where
  collect q flags := flags ||| q.flags
  final q := dfaAccept q.flags
  step q c := ((q.edges.takeWhile (·.c ≠ 0)).find? fun e => dfaEdgeMatch c e.c).map (·.target)

theorem dfaAccept_or (a b : UInt8) : dfaAccept (a ||| b) = (dfaAccept a || dfaAccept b) := by
  have hor : (a ||| b) &&& DfaFlag.accept = (a &&& DfaFlag.accept) ||| (b &&& DfaFlag.accept) :=
    UInt8.toBitVec_inj.mp BitVec.and_or_distrib_right
  rw [Bool.eq_iff_iff, Bool.or_eq_true]
  simp only [dfaAccept, dfaBitflagSet, bne_iff_ne, hor, ne_eq, UInt8.or_eq_zero_iff]
  tauto

/-- The edges of a state end with one for any character or with the one for none. -/
theorem DfaState.edges_end (q : DfaState) : ∃ e ∈ q.edges, e.c = 0 ∨ e.c = dfaAny := by
  cases q
  case start => exact ⟨⟨dfaAny, .reject⟩, by simp [edges], .inr rfl⟩
  all_goals exact ⟨zeroEdge, by simp [edges], .inl rfl⟩

theorem dfaAccept_collect (q : DfaState) {flags : UInt8} (h : dfaAccept flags = false) :
    dfaAccept (flags ||| q.flags) = dfa.final q := by
  rw [dfaAccept_or, h, Bool.false_or]
  rfl

/-- Once the flags do not accept, the scan takes the first edge that matches. -/
theorem dfaScan_edges {q : DfaState} {flags : UInt8} (h : dfaAccept (flags ||| q.flags) = false)
    (c : Char) {edges : List DfaEdge} (hend : ∃ e ∈ edges, e.c = 0 ∨ e.c = dfaAny) :
    dfaScan q flags c edges =
      ((edges.takeWhile (·.c ≠ 0)).find? fun e => dfaEdgeMatch c e.c).elim .invalid
        fun e => .goto (flags ||| q.flags) e.target := by
  induction edges generalizing flags with
  | nil =>
    obtain ⟨e, he, -⟩ := hend
    cases he
  | cons edge edges ih =>
    have hself : flags ||| q.flags ||| q.flags = flags ||| q.flags := by
      rw [UInt8.or_assoc, UInt8.or_self]
    rw [dfaScan, h, if_neg Bool.false_ne_true]
    by_cases hzero : edge.c = 0
    · simp [hzero]
    · by_cases hmatch : dfaEdgeMatch c edge.c = true
      · simp [hzero, hmatch]
      · have hrest : ∃ e ∈ edges, e.c = 0 ∨ e.c = dfaAny := by
          obtain ⟨e, he, hend⟩ := hend
          rcases List.mem_cons.mp he with rfl | he
          · rcases hend with h0 | hany
            · exact absurd h0 hzero
            · simp [dfaEdgeMatch, hany] at hmatch
          · exact ⟨e, he, hend⟩
        have hih := ih (by rw [hself]; exact h) hrest
        rw [hself] at hih
        simp [hzero, hmatch, hih]

/-- In a state that is not final the scan is the step. -/
theorem dfaScan_live {q : DfaState} (hq : dfa.final q = false) {flags : UInt8}
    (h : dfaAccept flags = false) (c : Char) :
    dfaScan q flags c q.edges = (dfa.step q c).elim .invalid (.goto (flags ||| q.flags)) := by
  have haccept := dfaAccept_collect q h
  rw [hq] at haccept
  rw [dfaScan_edges haccept c q.edges_end]
  exact (Option.elim_map _).symm

theorem dfaScan_final {q : DfaState} (hq : dfa.final q = true) {flags : UInt8}
    (h : dfaAccept flags = false) (c : Char) :
    dfaScan q flags c q.edges = .accepted (flags ||| q.flags) := by
  have haccept := dfaAccept_collect q h
  rw [hq] at haccept
  obtain ⟨e, he, -⟩ := q.edges_end
  obtain ⟨edge, edges, hedges⟩ := List.exists_cons_of_ne_nil (List.ne_nil_of_mem he)
  rw [hedges, dfaScan, if_pos haccept]

theorem dfaSimulateLoop_final {q : DfaState} (hq : dfa.final q = true) {flags : UInt8}
    (h : dfaAccept flags = false) (string : List Char) :
    dfaSimulateLoop q flags string = dfaFlagsToFmttype (flags ||| q.flags) := by
  have haccept := dfaAccept_collect q h
  rw [hq] at haccept
  have hresult : dfaResult (flags ||| q.flags) = dfaFlagsToFmttype (flags ||| q.flags) :=
    if_pos haccept
  cases string with
  | nil => rw [dfaSimulateLoop, dfaScan_final hq h]; exact hresult
  | cons c string => rw [dfaSimulateLoop, dfaScan_final hq h]; exact hresult

/-- The loop of `dfa_simulate` is the run of the collector. -/
theorem dfaSimulateLoop_eq_run {string : List Char} (hs : '\x00' ∉ string) {q : DfaState}
    {flags : UInt8} (h : dfaAccept flags = false) :
    dfaSimulateLoop q flags string = (dfa.run q flags string).elim (-1) dfaFlagsToFmttype := by
  induction string generalizing q flags with
  | nil =>
    rcases hq : dfa.final q with _ | _
    · have haccept := dfaAccept_collect q h
      rw [hq] at haccept
      have hstop : dfaResult (flags ||| q.flags) = -1 := if_neg (by rw [haccept]; decide)
      rw [dfaSimulateLoop, dfaScan_live hq h, Collector.run, hq, if_neg Bool.false_ne_true]
      rcases dfa.step q '\x00' with _ | next
      · rfl
      · exact hstop
    -- an accepting state ends the scan, whatever follows
    · rw [dfaSimulateLoop_final hq h, Collector.run_final hq]
      rfl
  | cons c string ih =>
    rw [List.mem_cons, not_or] at hs
    obtain ⟨hc, hs⟩ := hs
    rcases hq : dfa.final q with _ | _
    · have haccept := dfaAccept_collect q h
      rw [hq] at haccept
      rw [dfaSimulateLoop, dfaScan_live hq h, Collector.run, hq, if_neg Bool.false_ne_true]
      rcases dfa.step q c with _ | next
      · rfl
      · rw [Option.elim_some, Option.bind_some]
        dsimp only
        rw [if_neg (Ne.symm hc)]
        exact ih hs haccept
    · rw [dfaSimulateLoop_final hq h, Collector.run_final hq]
      rfl

/-! ## Words -/

namespace DfaState

/-- The words that lead from a state to a final one -/
def words : DfaState → List (List Char)
  | reject => []
  | stateD => [[]]
  | stateU => [[]]
  | stateL1 => [['d'], ['u']]
  | stateL0 => [['d'], ['u'], ['l', 'd'], ['l', 'u']]
  | stateH1 => [['d'], ['u']]
  | stateH0 => [['d'], ['u'], ['h', 'd'], ['h', 'u']]
  | start => FmtType.all.map FmtType.text

/-- An edge goes to `dfa_reject`, or it puts its character in front of every word from there on. -/
theorem words_edge (q : DfaState) : ∀ e ∈ q.edges, e.c ≠ 0 →
    e.target = reject ∨
      (e.c ≠ dfaAny ∧ ∀ word ∈ e.target.words, Char.ofNat e.c :: word ∈ q.words) := by
  cases q <;> decide

end DfaState

/-- A step follows an edge of its character, or it leads to `dfa_reject`. -/
theorem dfa_step_some {q next : DfaState} {c : Char} (h : dfa.step q c = some next) :
    next = .reject ∨ ∀ word ∈ next.words, c :: word ∈ q.words := by
  obtain ⟨e, hfind, rfl⟩ := Option.map_eq_some_iff.mp h
  have hmem := List.mem_of_find?_eq_some hfind
  have hmatch := List.find?_some hfind
  have hzero := List.mem_takeWhile_imp hmem
  rcases q.words_edge e ((List.takeWhile_sublist _).mem hmem) (of_decide_eq_true hzero) with
    hreject | ⟨hany, hwords⟩
  · exact .inl hreject
  · right
    have hc : c = Char.ofNat e.c := by
      rw [dfaEdgeMatch, Bool.or_eq_true, beq_iff_eq, beq_iff_eq] at hmatch
      rw [← hmatch.resolve_left hany, Char.ofNat_toNat]
    rw [hc]
    exact hwords

/-- There are no other words. -/
theorem mem_words_of_spells {q : DfaState} {flags flags' : UInt8} {word : List Char}
    (h : dfa.Spells q flags word flags') : word ∈ q.words := by
  induction h with
  | @final q flags hq =>
    cases q
    case stateD => exact List.mem_singleton.mpr rfl
    case stateU => exact List.mem_singleton.mpr rfl
    all_goals cases hq
  | @step q next flags flags' c word _ hstep _ ih =>
    rcases dfa_step_some hstep with rfl | hwords
    · cases ih
    · exact hwords word ih

/-! ## Types -/

namespace FmtType

/-- The name of a type in memory -/
def bytes (t : FmtType) : List UInt8 := t.text.map byteOf

/-- `sizeof` of the type: `char`, `short`, `int`, `long` and `long long` -/
def size : FmtType → ℕ
  | hhd => 1
  | hhu => 1
  | hd => 2
  | hu => 2
  | d => 4
  | u => 4
  | ld => 8
  | lu => 8
  | lld => 8
  | llu => 8

theorem map_charOf_bytes (t : FmtType) : t.bytes.map charOf = t.text := by
  cases t <;> rfl

theorem bytes_prefix_iff {t : FmtType} {s : List UInt8} :
    t.bytes <+: s ↔ t.text <+: s.map charOf := by
  constructor
  · intro h
    have hmap := h.map charOf
    rwa [t.map_charOf_bytes] at hmap
  · intro h
    have hmap := h.map byteOf
    rwa [map_byteOf_charOf] at hmap

end FmtType

/-- Every name is a word from the start. -/
theorem spells_text (t : FmtType) :
    ∃ flags, dfa.Spells .start 0 t.text flags ∧ dfaFlagsToFmttype flags = t.code := by
  have hd : ∀ flags, dfa.Spells .stateD flags [] (flags ||| DfaState.stateD.flags) :=
    fun _ => .final rfl
  have hu : ∀ flags, dfa.Spells .stateU flags [] (flags ||| DfaState.stateU.flags) :=
    fun _ => .final rfl
  cases t
  case d => exact ⟨_, .step rfl rfl (hd _), rfl⟩
  case u => exact ⟨_, .step rfl rfl (hu _), rfl⟩
  case ld => exact ⟨_, .step rfl rfl (.step rfl rfl (hd _)), rfl⟩
  case lu => exact ⟨_, .step rfl rfl (.step rfl rfl (hu _)), rfl⟩
  case hd => exact ⟨_, .step rfl rfl (.step rfl rfl (hd _)), rfl⟩
  case hu => exact ⟨_, .step rfl rfl (.step rfl rfl (hu _)), rfl⟩
  case lld => exact ⟨_, .step rfl rfl (.step rfl rfl (.step rfl rfl (hd _))), rfl⟩
  case llu => exact ⟨_, .step rfl rfl (.step rfl rfl (.step rfl rfl (hu _))), rfl⟩
  case hhd => exact ⟨_, .step rfl rfl (.step rfl rfl (.step rfl rfl (hd _))), rfl⟩
  case hhu => exact ⟨_, .step rfl rfl (.step rfl rfl (.step rfl rfl (hu _))), rfl⟩

/-- A name in front decides the code. -/
theorem dfaSimulate_of_prefix {string : List Char} (hs : '\x00' ∉ string) {t : FmtType}
    (h : t.text <+: string) : dfaSimulate string = t.code := by
  obtain ⟨flags, hword, hcode⟩ := spells_text t
  have hrun := Collector.run_eq_some_iff.mpr ⟨t.text, hword, h⟩
  rw [dfaSimulate, dfaSimulateLoop_eq_run hs (by decide), hrun]
  exact hcode

theorem dfaSimulate_eq_neg_one {string : List Char} (hs : '\x00' ∉ string)
    (h : ∀ t : FmtType, ¬ t.text <+: string) : dfaSimulate string = -1 := by
  have hrun : dfa.run .start 0 string = none := by
    refine Collector.run_eq_none_iff.mpr fun word flags hword hbegins => ?_
    obtain ⟨t, -, rfl⟩ := List.mem_map.mp (mem_words_of_spells hword)
    exact h t hbegins
  rw [dfaSimulate, dfaSimulateLoop_eq_run hs (by decide), hrun]
  rfl

/-- **The grammar of the conversions.** For every string in memory and whatever is behind it, the
automaton stays inside the string and returns a type code if and only if a name of a type is in
front. It is the code of that type, which gives the length of the name and the size of the type;
if there is no name, the result is -1. -/
theorem dfaSimulate_exact {s : List UInt8} (hs : 0 ∉ s) :
    ∃ r : ℤ, (∀ behind, dfaSimulateAt .start 0 (s ++ 0 :: behind) = some r) ∧
      ((∃ t : FmtType, r = t.code) ↔ ∃ t : FmtType, t.bytes <+: s) ∧
      (∀ t : FmtType, t.bytes <+: s →
        r = t.code ∧ dfaFmtlen t = t.bytes.length ∧ dfaValsize t = t.size) ∧
      ((¬ ∃ t : FmtType, t.bytes <+: s) → r = -1) := by
  have hnul : '\x00' ∉ s.map charOf := by
    intro hmem
    obtain ⟨b, hb, hzero⟩ := List.mem_map.mp hmem
    rw [charOf_eq_nul_iff.mp hzero] at hb
    exact hs hb
  have hname : ∀ t : FmtType, t.bytes <+: s → dfaSimulate (s.map charOf) = t.code :=
    fun t h => dfaSimulate_of_prefix hnul (FmtType.bytes_prefix_iff.mp h)
  have hnone : (¬ ∃ t : FmtType, t.bytes <+: s) → dfaSimulate (s.map charOf) = -1 :=
    fun h => dfaSimulate_eq_neg_one hnul fun t ht => h ⟨t, FmtType.bytes_prefix_iff.mpr ht⟩
  refine ⟨dfaSimulate (s.map charOf), fun behind => dfaSimulateAt_terminated hs behind _ _,
    ⟨?_, ?_⟩, ?_, hnone⟩
  · rintro ⟨t, hcode⟩
    by_contra h
    rw [hnone h] at hcode
    cases t <;> cases hcode
  · rintro ⟨t, ht⟩
    exact ⟨t, hname t ht⟩
  · intro t ht
    refine ⟨hname t ht, ?_, ?_⟩ <;> cases t <;> rfl

/-- `"lld"` with a byte behind it that is the label of the edge for any character -/
theorem dfaSimulate_exact_lld :
    ∃ r : ℤ, (∀ behind, dfaSimulateAt .start 0 ([108, 108, 100, 128] ++ 0 :: behind) = some r) ∧
      r = 4 := by
  obtain ⟨r, hrun, -, hcode, -⟩ := @dfaSimulate_exact [108, 108, 100, 128] (by decide)
  obtain ⟨hr, -, -⟩ := hcode .lld ⟨[128], rfl⟩
  exact ⟨r, hrun, hr⟩

end AmdgpuFand
