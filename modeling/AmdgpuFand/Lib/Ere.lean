import Mathlib.Algebra.GroupWithZero.Nat
import Mathlib.Data.List.Basic
import Mathlib.Data.List.TakeWhile

/-!
# Extended regular expressions, as `regexec` matches them

The fragment of POSIX extended regular expressions without alternation and without
repeated groups: a sequence of single-character classes, each with a quantifier and
the number of the parenthesised group it stands in, and the two anchors.

`parses` enumerates every way an expression matches a prefix of the input, each
recorded as the list of pieces its classes consumed. The enumeration tries the
longer piece first, class by class from left to right, so it is sorted by the POSIX
rule for subpatterns; `best` picks the first of the longest overall, and `search`
the leftmost starting point. What a parse is, is said independently by `Matches`
(`mem_parses`); most uses of an expression need no more than that the result of
`regexec` is *some* match (`regexec_matches`) and that there is one whenever a match
exists (`regexec_isSome`). Where it matters which one, `regexec_greedy` says so.
-/

namespace Ere

/-! ## Syntax -/

/-- How often a character class may match. -/
inductive Quantifier where
  /-- exactly once -/
  | one
  /-- `?` -/
  | opt
  /-- `*` -/
  | star
  /-- `+` -/
  | plus
  deriving DecidableEq

/-- An element of an expression. -/
inductive Node where
  /-- a quantified character class inside group `group`, `0` for none -/
  | chars (q : Quantifier) (p : Char → Bool) (group : ℕ)
  /-- `^` -/
  | bol
  /-- `$` -/
  | eol

/-- An expression. -/
abbrev Regex := List Node

/-- The piece lengths a quantifier allows. -/
def Quantifier.Allows : Quantifier → ℕ → Prop
  | .one, n => n = 1
  | .opt, n => n ≤ 1
  | .star, _ => True
  | .plus, n => 1 ≤ n

/-! ## Matching -/

/-- The piece lengths to try, longest first, when the next `run` characters belong
to the class. -/
def Quantifier.lengths : Quantifier → ℕ → List ℕ
  | .one, run => if 1 ≤ run then [1] else []
  | .opt, run => if 1 ≤ run then [1, 0] else [0]
  | .star, run => (List.range (run + 1)).reverse
  | .plus, run => ((List.range run).map (· + 1)).reverse

/-- Every way to match a prefix of the input: the piece of each class, in order.
`start` says whether the input is at the beginning of the string. -/
def parses : Regex → Bool → List Char → List (List (List Char))
  | [], _, _ => [[]]
  | .bol :: re, start, s => if start then parses re start s else []
  | .eol :: re, start, s => if s = [] then parses re start s else []
  | .chars q p _ :: re, start, s =>
    (q.lengths (s.takeWhile p).length).flatMap fun n =>
      (parses re (start && n == 0) (s.drop n)).map (s.take n :: ·)

/-- Number of characters a parse consumes. -/
def consumed (ps : List (List Char)) : ℕ := (ps.map List.length).sum

/-- The first parse of maximal length. -/
def best : List (List (List Char)) → Option (List (List Char))
  | [] => none
  | ps :: rest =>
    match best rest with
    | none => some ps
    | some qs => if consumed ps < consumed qs then some qs else some ps

/-- The leftmost match, at or after the current position. -/
def search (re : Regex) : Bool → List Char → Option (List (List Char))
  | start, [] => best (parses re start [])
  | start, c :: s =>
    match best (parses re start (c :: s)) with
    | some ps => some ps
    | none => search re false s

/-- `regexec`: the leftmost-longest match, as the pieces of its classes. -/
def regexec (re : Regex) (s : List Char) : Option (List (List Char)) := search re true s

/-- The text of a parenthesised group: the pieces of the classes inside it. -/
def group : Regex → ℕ → List (List Char) → List Char
  | [], _, _ => []
  | .chars _ _ g :: re, k, p :: ps => if g = k then p ++ group re k ps else group re k ps
  | .chars _ _ _ :: _, _, [] => []
  | .bol :: re, k, ps => group re k ps
  | .eol :: re, k, ps => group re k ps

/-! ## What a match is -/

/-- `ps` are pieces of an initial part of `s`, one for each class of the expression. -/
def Matches : Regex → Bool → List Char → List (List Char) → Prop
  | [], _, _, ps => ps = []
  | .bol :: re, start, s, ps => start = true ∧ Matches re start s ps
  | .eol :: re, start, s, ps => s = [] ∧ Matches re start s ps
  | .chars q p _ :: re, start, s, ps =>
    ∃ w r ps', ps = w :: ps' ∧ s = w ++ r ∧ q.Allows w.length ∧ (∀ c ∈ w, p c = true) ∧
      Matches re (start && w.length == 0) r ps'

theorem Quantifier.mem_lengths {q : Quantifier} {run n : ℕ} :
    n ∈ q.lengths run ↔ n ≤ run ∧ q.Allows n := by
  cases q with
  | one =>
    by_cases h : 1 ≤ run
    · simp only [Quantifier.lengths, if_pos h, List.mem_singleton, Quantifier.Allows]
      omega
    · simp only [Quantifier.lengths, if_neg h, List.not_mem_nil, Quantifier.Allows, false_iff]
      omega
  | opt =>
    by_cases h : 1 ≤ run
    · simp only [Quantifier.lengths, if_pos h, List.mem_cons, List.not_mem_nil, or_false,
        Quantifier.Allows]
      omega
    · simp only [Quantifier.lengths, if_neg h, List.mem_singleton, Quantifier.Allows]
      omega
  | star =>
    simp only [Quantifier.lengths, List.mem_reverse, List.mem_range, Quantifier.Allows, and_true]
    omega
  | plus =>
    simp only [Quantifier.lengths, List.mem_reverse, List.mem_map, List.mem_range,
      Quantifier.Allows]
    refine ⟨?_, ?_⟩
    · rintro ⟨m, hm, rfl⟩
      omega
    · rintro ⟨hle, hpos⟩
      exact ⟨n - 1, by omega, by omega⟩

/-- A piece of the class is an initial part of its run, and conversely. -/
theorem le_length_takeWhile {p : Char → Bool} {s : List Char} {n : ℕ} :
    n ≤ (s.takeWhile p).length ↔ n ≤ s.length ∧ ∀ c ∈ s.take n, p c = true := by
  induction s generalizing n with
  | nil => simp
  | cons a s ih =>
    cases n with
    | zero => simp
    | succ n =>
      by_cases ha : p a = true
      · rw [List.takeWhile_cons_of_pos ha]
        simp only [List.length_cons, Nat.add_le_add_iff_right, ih, List.take_succ_cons,
          List.mem_cons, forall_eq_or_imp, ha, true_and]
      · rw [List.takeWhile_cons_of_neg ha]
        simp [ha]

/-- The enumeration finds the matches. -/
theorem mem_parses {re : Regex} {start : Bool} {s : List Char} {ps : List (List Char)} :
    ps ∈ parses re start s ↔ Matches re start s ps := by
  induction re generalizing start s ps with
  | nil => simp [parses, Matches]
  | cons node re ih =>
    cases node with
    | bol =>
      by_cases h : start = true
      · simp [parses, Matches, h, ih]
      · simp [parses, Matches, h]
    | eol =>
      by_cases h : s = []
      · simp [parses, Matches, h, ih]
      · simp [parses, Matches, h]
    | chars q p g =>
      simp only [parses, Matches, List.mem_flatMap, List.mem_map, Quantifier.mem_lengths,
        le_length_takeWhile, ih]
      refine ⟨?_, ?_⟩
      · rintro ⟨n, ⟨⟨hle, hall⟩, hq⟩, ps', hps', rfl⟩
        have hlen : (s.take n).length = n := List.length_take_of_le hle
        exact ⟨s.take n, s.drop n, ps', rfl, (List.take_append_drop n s).symm,
          hlen.symm ▸ hq, hall, by rw [hlen]; exact hps'⟩
      · rintro ⟨w, r, ps', rfl, rfl, hq, hall, hps'⟩
        refine ⟨w.length, ⟨⟨by simp, by simpa using hall⟩, hq⟩, ps', ?_, by simp⟩
        rwa [List.drop_left]

theorem best_mem {l : List (List (List Char))} {ps : List (List Char)} (h : best l = some ps) :
    ps ∈ l := by
  induction l with
  | nil => cases h
  | cons qs rest ih =>
    simp only [best] at h
    rcases hb : best rest with _ | rs
    · rw [hb] at h
      cases h
      exact List.mem_cons_self ..
    · rw [hb] at h
      dsimp only at h
      split_ifs at h with hlt
      · cases h
        exact List.mem_cons_of_mem _ (ih hb)
      · cases h
        exact List.mem_cons_self ..

theorem best_eq_none {l : List (List (List Char))} : best l = none ↔ l = [] := by
  cases l with
  | nil => simp [best]
  | cons qs rest =>
    simp only [best, reduceCtorEq, iff_false]
    rcases best rest with _ | rs
    · simp
    · dsimp only
      split_ifs <;> simp

/-! ## What `regexec` returns -/

/-- The result of a search is a match of some rest of the string. -/
theorem search_matches {re : Regex} {start : Bool} {s : List Char} {ps : List (List Char)}
    (h : search re start s = some ps) :
    ∃ pre suf, s = pre ++ suf ∧ Matches re (start && pre.length == 0) suf ps := by
  induction s generalizing start with
  | nil => exact ⟨[], [], rfl, by simpa using mem_parses.mp (best_mem h)⟩
  | cons c s ih =>
    simp only [search] at h
    rcases hb : best (parses re start (c :: s)) with _ | qs
    · rw [hb] at h
      obtain ⟨pre, suf, rfl, hm⟩ := ih h
      refine ⟨c :: pre, suf, rfl, ?_⟩
      simpa using hm
    · rw [hb] at h
      cases h
      exact ⟨[], c :: s, rfl, by simpa using mem_parses.mp (best_mem hb)⟩

theorem regexec_matches {re : Regex} {s : List Char} {ps : List (List Char)}
    (h : regexec re s = some ps) :
    ∃ pre suf, s = pre ++ suf ∧ Matches re (pre.length == 0) suf ps := by
  simpa using search_matches h

/-- Where some rest of the string matches, the search succeeds. -/
theorem search_isSome {re : Regex} {start : Bool} {pre suf : List Char} {ps : List (List Char)}
    (h : Matches re (start && pre.length == 0) suf ps) :
    ∃ qs, search re start (pre ++ suf) = some qs := by
  have hbest : ∀ {start s ps}, Matches re start s ps →
      ∃ qs, best (parses re start s) = some qs := by
    intro start s ps hm
    rcases hb : best (parses re start s) with _ | qs
    · rw [best_eq_none] at hb
      have := mem_parses.mpr hm
      rw [hb] at this
      cases this
    · exact ⟨qs, rfl⟩
  induction pre generalizing start with
  | nil =>
    rw [show (start && ([] : List Char).length == 0) = start by simp] at h
    obtain ⟨qs, hqs⟩ := hbest h
    refine ⟨qs, ?_⟩
    cases suf with
    | nil => exact hqs
    | cons c s => simp only [List.nil_append, search, hqs]
  | cons c pre ih =>
    simp only [List.cons_append, search]
    rcases best (parses re start (c :: (pre ++ suf))) with _ | qs
    · exact ih (by simpa using h)
    · exact ⟨qs, rfl⟩

theorem regexec_isSome {re : Regex} {pre suf : List Char} {ps : List (List Char)}
    (h : Matches re (pre.length == 0) suf ps) : ∃ qs, regexec re (pre ++ suf) = some qs :=
  search_isSome (by simpa using h)

/-- A match at the current position wins over all later ones. -/
theorem search_here {re : Regex} {start : Bool} {s : List Char} {ps : List (List Char)}
    (h : Matches re start s ps) :
    ∃ qs, search re start s = some qs ∧ Matches re start s qs := by
  rcases hb : best (parses re start s) with _ | qs
  · rw [best_eq_none] at hb
    have := mem_parses.mpr h
    rw [hb] at this
    cases this
  · refine ⟨qs, ?_, mem_parses.mp (best_mem hb)⟩
    cases s with
    | nil => exact hb
    | cons c s => simp only [search, hb]

/-- Where nothing matches at the current position, the search moves on. -/
theorem search_skip {re : Regex} {start : Bool} {c : Char} {s : List Char}
    (h : ∀ ps, ¬ Matches re start (c :: s) ps) : search re start (c :: s) = search re false s := by
  have hnil : parses re start (c :: s) = [] :=
    List.eq_nil_iff_forall_not_mem.mpr fun ps hps => h ps (mem_parses.mp hps)
  simp only [search, hnil, best]

/-! ## Single nodes -/

section Nodes

variable {re : Regex} {start : Bool} {s : List Char} {ps : List (List Char)} {g : ℕ}

theorem matches_one {p : Char → Bool} :
    Matches (.chars .one p g :: re) start s ps ↔
      ∃ c r ps', p c = true ∧ s = c :: r ∧ ps = [c] :: ps' ∧ Matches re false r ps' := by
  refine ⟨?_, ?_⟩
  · rintro ⟨w, r, ps', rfl, rfl, hlen, hall, hm⟩
    obtain ⟨c, rfl⟩ := List.length_eq_one_iff.mp hlen
    refine ⟨c, r, ps', hall c (List.mem_singleton_self c), rfl, rfl, ?_⟩
    simpa using hm
  · rintro ⟨c, r, ps', hc, rfl, rfl, hm⟩
    exact ⟨[c], r, ps', rfl, rfl, rfl, by simpa using hc, by simpa using hm⟩

theorem matches_plus {p : Char → Bool} :
    Matches (.chars .plus p g :: re) start s ps ↔
      ∃ w r ps', w ≠ [] ∧ (∀ c ∈ w, p c = true) ∧ s = w ++ r ∧ ps = w :: ps' ∧
        Matches re false r ps' := by
  have hstart : ∀ w : List Char, w ≠ [] → (start && w.length == 0) = false := by
    intro w hw
    simp [hw]
  refine ⟨?_, ?_⟩
  · rintro ⟨w, r, ps', rfl, rfl, hlen, hall, hm⟩
    have hne : w ≠ [] := List.length_pos_iff.mp hlen
    rw [hstart w hne] at hm
    exact ⟨w, r, ps', hne, hall, rfl, rfl, hm⟩
  · rintro ⟨w, r, ps', hne, hall, rfl, rfl, hm⟩
    rw [← hstart w hne] at hm
    exact ⟨w, r, ps', rfl, rfl, List.length_pos_iff.mpr hne, hall, hm⟩

end Nodes

/-! ## Position and runs -/

/-- Whether a node is the anchor `^`. -/
def Node.isBol : Node → Bool
  | .bol => true
  | _ => false

/-- Without `^`, it does not matter where the string begins. -/
theorem parses_start {re : Regex} (h : ∀ n ∈ re, n.isBol = false) (start start' : Bool)
    (s : List Char) : parses re start s = parses re start' s := by
  induction re generalizing start start' s with
  | nil => rfl
  | cons node re ih =>
    have hre : ∀ n ∈ re, n.isBol = false := fun n hn => h n (List.mem_cons_of_mem node hn)
    cases node with
    | bol => exact absurd (h .bol (List.mem_cons_self ..)) (by decide)
    | eol => simp only [parses, ih hre start start' s]
    | chars q p g =>
      simp only [parses]
      refine congrArg (List.flatMap · _) (funext fun n => ?_)
      rw [ih hre (start && n == 0) (start' && n == 0)]

theorem search_start {re : Regex} (h : ∀ n ∈ re, n.isBol = false) (start start' : Bool)
    (s : List Char) : search re start s = search re start' s := by
  cases s with
  | nil => simp only [search, parses_start h start start']
  | cons c s => simp only [search, parses_start h start start']

/-- Without `^`, a match does not depend on where the string begins. -/
theorem matches_start {re : Regex} (hre : ∀ n ∈ re, n.isBol = false) {start : Bool}
    {s : List Char} {ps : List (List Char)} (start' : Bool) :
    Matches re start s ps ↔ Matches re start' s ps := by
  rw [← mem_parses, ← mem_parses, parses_start hre start start']

/-- Without `^`, a search that finds nothing at its first character starts afresh at the
next. -/
theorem regexec_skip {re : Regex} (hre : ∀ n ∈ re, n.isBol = false) {c : Char} {s : List Char}
    (h : ∀ ps, ¬ Matches re true (c :: s) ps) : regexec re (c :: s) = regexec re s :=
  (search_skip h).trans (search_start hre false true s)

/-- A run of characters ends where the first other one stands. -/
theorem run_unique {p : Char → Bool} {w w' r r' : List Char} {x y : Char}
    (hw : ∀ c ∈ w, p c = true) (hw' : ∀ c ∈ w', p c = true) (hx : p x = false) (hy : p y = false)
    (h : w ++ x :: r = w' ++ y :: r') : w = w' ∧ x = y ∧ r = r' := by
  have htake := congrArg (List.takeWhile p) h
  rw [List.takeWhile_append_of_pos hw, List.takeWhile_append_of_pos hw',
    List.takeWhile_cons_of_neg (by simp [hx]), List.takeWhile_cons_of_neg (by simp [hy]),
    List.append_nil, List.append_nil] at htake
  subst htake
  obtain ⟨rfl, rfl⟩ := List.cons.inj (List.append_cancel_left h)
  exact ⟨rfl, rfl, rfl⟩

/-- The same for a run that may end with the string -/
theorem run_end_unique {p : Char → Bool} {w w' r r' : List Char} (hw : ∀ c ∈ w, p c = true)
    (hw' : ∀ c ∈ w', p c = true) (hr : ∀ c t, r = c :: t → p c = false)
    (hr' : ∀ c t, r' = c :: t → p c = false) (h : w ++ r = w' ++ r') : w = w' ∧ r = r' := by
  rcases List.append_eq_append_iff.mp h with ⟨a, rfl, ha⟩ | ⟨a, rfl, ha⟩
  · cases a with
    | nil => exact ⟨(List.append_nil w).symm, ha⟩
    | cons c a =>
      have hc := hw' c (List.mem_append_right w (List.mem_cons_self ..))
      rw [hr c _ ha] at hc
      cases hc
  · cases a with
    | nil => exact ⟨List.append_nil w', ha.symm⟩
    | cons c a =>
      have hc := hw c (List.mem_append_right w' (List.mem_cons_self ..))
      rw [hr' c _ ha] at hc
      cases hc

/-- There is one way to cut a string at a character that occurs once. -/
theorem cut_unique {w w' r r' : List Char} {x : Char} (hw : x ∉ w) (hr : x ∉ r)
    (h : w ++ x :: r = w' ++ x :: r') : w = w' ∧ r = r' := by
  rcases List.append_eq_append_iff.mp h with ⟨a, rfl, ha⟩ | ⟨a, rfl, ha⟩
  · cases a with
    | nil => exact ⟨(List.append_nil w).symm, (List.cons.inj ha).2⟩
    | cons y a =>
      obtain ⟨rfl, rfl⟩ := List.cons.inj ha
      exact absurd (List.mem_append_right a (List.mem_cons_self ..)) hr
  · cases a with
    | nil => exact ⟨List.append_nil w', (List.cons.inj ha).2.symm⟩
    | cons y a =>
      obtain ⟨rfl, -⟩ := List.cons.inj ha
      exact absurd (List.mem_append_right w' (List.mem_cons_self ..)) hw

/-! ## Greed -/

/-- Of two ways to match that begin alike, this one does not take the shorter piece next. -/
def Greedier (ps qs : List (List Char)) : Prop :=
  ∀ pre w w' r r', ps = pre ++ w :: r → qs = pre ++ w' :: r' → w'.length ≤ w.length

theorem Quantifier.lengths_sorted (q : Quantifier) (run : ℕ) :
    (q.lengths run).Pairwise (· > ·) := by
  cases q with
  | one =>
    rw [Quantifier.lengths]
    split_ifs <;> simp
  | opt =>
    rw [Quantifier.lengths]
    split_ifs <;> simp
  | star =>
    rw [Quantifier.lengths, List.pairwise_reverse]
    exact List.pairwise_lt_range
  | plus =>
    rw [Quantifier.lengths, List.pairwise_reverse, List.pairwise_map]
    exact List.pairwise_lt_range.imp fun h => Nat.succ_lt_succ h

/-- The enumeration is sorted by the rule for subpatterns. -/
theorem parses_sorted (re : Regex) (start : Bool) (s : List Char) :
    (parses re start s).Pairwise Greedier := by
  induction re generalizing start s with
  | nil => exact List.pairwise_singleton ..
  | cons node re ih =>
    cases node with
    | bol =>
      rw [parses]
      split_ifs
      · exact ih start s
      · exact .nil
    | eol =>
      rw [parses]
      split_ifs
      · exact ih start s
      · exact .nil
    | chars q p g =>
      rw [parses, List.pairwise_flatMap]
      refine ⟨fun n _ => ?_, ?_⟩
      · rw [List.pairwise_map]
        refine (ih (start && n == 0) (s.drop n)).imp fun {ps qs} h => ?_
        rintro (_ | ⟨x, pre⟩) w w' r r' hps hqs
        · obtain ⟨rfl, -⟩ := List.cons.inj hps
          obtain ⟨rfl, -⟩ := List.cons.inj hqs
          exact le_refl _
        · exact h pre w w' r r' (List.cons.inj hps).2 (List.cons.inj hqs).2
      -- two lengths of the first piece: the longer one comes first
      · refine (q.lengths_sorted _).imp_of_mem fun {n m} hn _ hlt => ?_
        have hle : n ≤ s.length :=
          (le_length_takeWhile.mp (Quantifier.mem_lengths.mp hn).1).1
        intro ps hps qs hqs
        obtain ⟨ps', -, rfl⟩ := List.mem_map.mp hps
        obtain ⟨qs', -, rfl⟩ := List.mem_map.mp hqs
        rintro (_ | ⟨x, pre⟩) w w' r r' hps hqs
        · obtain ⟨rfl, -⟩ := List.cons.inj hps
          obtain ⟨rfl, -⟩ := List.cons.inj hqs
          simp only [List.length_take]
          omega
        · -- the pieces differ here, so they do not begin alike
          have hsame : (s.take n).length = (s.take m).length := by
            rw [(List.cons.inj hps).1, (List.cons.inj hqs).1]
          simp only [List.length_take] at hsame
          omega

theorem best_first {l : List (List (List Char))} {ps : List (List Char)} (h : best l = some ps) :
    ∃ before after, l = before ++ ps :: after ∧ ∀ qs ∈ before, consumed qs < consumed ps := by
  induction l with
  | nil => cases h
  | cons qs rest ih =>
    simp only [best] at h
    rcases hb : best rest with _ | rs
    · rw [hb] at h
      cases h
      exact ⟨[], rest, rfl, by simp⟩
    · rw [hb] at h
      dsimp only at h
      split_ifs at h with hlt
      · cases h
        obtain ⟨before, after, rfl, hbefore⟩ := ih hb
        refine ⟨qs :: before, after, rfl, fun rs hrs => ?_⟩
        rcases List.mem_cons.mp hrs with rfl | hrs
        · exact hlt
        · exact hbefore rs hrs
      · cases h
        exact ⟨[], rest, rfl, by simp⟩

/-- The match that is found at the beginning of a string is, of those that take as much of it, the
greediest. -/
theorem regexec_greedy {re : Regex} {s : List Char} {ps qs : List (List Char)}
    (h : regexec re s = some ps) (hqs : Matches re true s qs)
    (hsame : consumed qs = consumed ps) : Greedier ps qs := by
  have hbest : best (parses re true s) = some ps := by
    obtain ⟨rs, hrs, -⟩ := search_here hqs
    rcases hb : best (parses re true s) with _ | rs'
    · rw [best_eq_none] at hb
      have hmem := mem_parses.mpr hqs
      rw [hb] at hmem
      cases hmem
    · rw [regexec] at h
      cases s with
      | nil =>
        rw [search, hb] at h
        exact h
      | cons c s =>
        rw [search, hb] at h
        exact h
  obtain ⟨before, after, hl, hbefore⟩ := best_first hbest
  have hsorted := parses_sorted re true s
  have hmem := mem_parses.mpr hqs
  rw [hl] at hsorted hmem
  rcases List.mem_append.mp hmem with hmem | hmem
  · exact absurd hsame (hbefore qs hmem).ne
  · rcases List.mem_cons.mp hmem with rfl | hmem
    · intro pre w w' r r' hps hqs
      obtain ⟨rfl, -⟩ := List.cons.inj (List.append_cancel_left (hps.symm.trans hqs))
      exact le_refl _
    · exact (List.pairwise_cons.mp (List.pairwise_append.mp hsorted).2.1).1 qs hmem

end Ere
