import AmdgpuFand.Comments
import AmdgpuFand.NumericSettings

/-!
# White space behind a setting

The pattern for a line ends in `\s*$`. But the value before that is `[^" ]+`, which leaves out a
space and nothing else that `\s` stands for: a tab, a form feed or a carriage return directly behind
a value without quotes belongs to the value, and every handler rejects it.

`Parts` are the pieces of a line, and `Parts.Settled` says which of the ways to cut the line into
pieces is the one that `regexec` finds. From this follows what a line with white space behind it is
read as (`reads_append`), and from that what becomes of the file (`trailingSpace_exact`).
-/

namespace AmdgpuFand

open CLib Ere

/-! ## The pieces of a line -/

/-- The pieces that `valregex` cuts a line into. -/
structure Parts where
  lead : List Char
  key : List Char
  gap : List Char
  gap' : List Char
  quote : List Char
  value : List Char
  quote' : List Char
  tail : List Char

namespace Parts

/-- From the `=` on -/
def right (p : Parts) : List Char := p.gap' ++ (p.quote ++ (p.value ++ (p.quote' ++ p.tail)))

/-- The line -/
def text (p : Parts) : List Char := p.lead ++ (p.key ++ (p.gap ++ '=' :: p.right))

/-- As `regexec` reports them -/
def pieces (p : Parts) : List (List Char) :=
  [p.lead, p.key, p.gap, ['='], p.gap', p.quote, p.value, p.quote', p.tail]

/-- They are a match. -/
structure Fit (p : Parts) : Prop where
  lead : ∀ c ∈ p.lead, isSpace c = true
  key_ne : p.key ≠ []
  key : ∀ c ∈ p.key, isSpace c = false
  gap : ∀ c ∈ p.gap, isSpace c = true
  gap' : ∀ c ∈ p.gap', isSpace c = true
  quote_le : p.quote.length ≤ 1
  quote : ∀ c ∈ p.quote, c = '\x22'
  value_ne : p.value ≠ []
  value : ∀ c ∈ p.value, c ≠ '\x22' ∧ c ≠ ' '
  quote'_le : p.quote'.length ≤ 1
  quote' : ∀ c ∈ p.quote', c = '\x22'
  tail : ∀ c ∈ p.tail, isSpace c = true

/-- They are the match that `regexec` finds: the line has one `=`, and the value begins as late and
ends as late as it can. -/
structure Settled (p : Parts) : Prop where
  fit : p.Fit
  key : '=' ∉ p.key
  value : '=' ∉ p.value
  front : p.quote = [] → ∀ c v, p.value = c :: v → isSpace c = false
  back : p.quote' = [] → ∀ c t, p.tail = c :: t → c = ' '

end Parts

/-- What the pattern of a setting matches, in terms of its parts -/
theorem matches_parts {s : List Char} {ps : List (List Char)} :
    Matches valregex true s ps ↔ ∃ p : Parts, p.Fit ∧ s = p.text ∧ ps = p.pieces := by
  rw [matches_valregex]
  refine ⟨?_, ?_⟩
  · rintro ⟨lead, key, gap, gap', quote, value, quote', tail, h₁, h₂, h₃, h₄, h₅, h₆, h₇, h₈, h₉,
      h₁₀, h₁₁, h₁₂, rfl, rfl⟩
    exact ⟨⟨lead, key, gap, gap', quote, value, quote', tail⟩,
      ⟨h₁, h₂, h₃, h₄, h₅, h₆, h₇, h₈, h₉, h₁₀, h₁₁, h₁₂⟩, rfl, rfl⟩
  · rintro ⟨p, h, rfl, rfl⟩
    exact ⟨p.lead, p.key, p.gap, p.gap', p.quote, p.value, p.quote', p.tail, h.lead, h.key_ne,
      h.key, h.gap, h.gap', h.quote_le, h.quote, h.value_ne, h.value, h.quote'_le, h.quote', h.tail,
      rfl, rfl⟩

theorem regexec_parts {s : List Char} {ps : List (List Char)}
    (h : regexec valregex s = some ps) : ∃ p : Parts, p.Fit ∧ s = p.text ∧ ps = p.pieces := by
  obtain ⟨pre, suf, rfl, hmatch⟩ := regexec_matches h
  have hpre : pre = [] := List.eq_nil_of_length_eq_zero (by simpa using hmatch.1)
  subst hpre
  exact matches_parts.mp hmatch

/-- With white space behind it, the line ends in the same value: the line ends in white space or a
quote already, or what follows it begins with a space. -/
def EndsValue (line ws : List Char) : Prop :=
  (∀ c t, ws = c :: t → c = ' ') ∨
    ∃ front c, line = front ++ [c] ∧ (isSpace c = true ∨ c = '\x22')

theorem ne_of_isSpace {c d : Char} (hc : isSpace c = true) (hd : isSpace d = false) : c ≠ d := by
  rintro rfl
  rw [hc] at hd
  cases hd

namespace Parts

variable {p q : Parts}

theorem group_key (p : Parts) : group valregex 1 p.pieces = p.key := by
  simp [group, valregex, spaces, chr, pieces]

theorem group_value (p : Parts) : group valregex 2 p.pieces = p.value := by
  simp [group, valregex, spaces, chr, pieces]

/-- Matches of one text consume the same of it. -/
theorem consumed_pieces (h : q.text = p.text) : consumed q.pieces = consumed p.pieces := by
  have hlen : ∀ p : Parts, Ere.consumed p.pieces = p.text.length := by
    intro p
    simp only [Ere.consumed, pieces, text, right, List.map_cons, List.map_nil, List.sum_cons,
      List.sum_nil, List.length_append, List.length_cons, List.length_nil]
    omega
  rw [hlen, hlen, h]

theorem Fit.not_mem_lead (h : p.Fit) : '=' ∉ p.lead :=
  fun hmem => ne_of_isSpace (h.lead _ hmem) (by decide) rfl

theorem Fit.not_mem_gap (h : p.Fit) : '=' ∉ p.gap :=
  fun hmem => ne_of_isSpace (h.gap _ hmem) (by decide) rfl

theorem Fit.not_mem_right (h : p.Fit) (hvalue : '=' ∉ p.value) : '=' ∉ p.right := by
  intro hmem
  rw [right, List.mem_append, List.mem_append, List.mem_append, List.mem_append] at hmem
  rcases hmem with hmem | hmem | hmem | hmem | hmem
  · exact ne_of_isSpace (h.gap' _ hmem) (by decide) rfl
  · exact absurd (h.quote _ hmem) (by decide)
  · exact hvalue hmem
  · exact absurd (h.quote' _ hmem) (by decide)
  · exact ne_of_isSpace (h.tail _ hmem) (by decide) rfl

/-- Two matches of a line with one `=` have the same key. -/
theorem Fit.left_unique (hp : p.Fit) (hq : q.Fit) (hkey : '=' ∉ p.key) (hvalue : '=' ∉ p.value)
    (h : p.text = q.text) :
    q.lead = p.lead ∧ q.key = p.key ∧ q.gap = p.gap ∧ q.right = p.right := by
  have hleft : '=' ∉ p.lead ++ (p.key ++ p.gap) := by
    simp only [List.mem_append, not_or]
    exact ⟨hp.not_mem_lead, hkey, hp.not_mem_gap⟩
  have htext : (p.lead ++ (p.key ++ p.gap)) ++ '=' :: p.right =
      (q.lead ++ (q.key ++ q.gap)) ++ '=' :: q.right := by
    simpa only [text, List.append_assoc] using h
  obtain ⟨hsame, hright⟩ := cut_unique hleft (hp.not_mem_right hvalue) htext
  have hhead : ∀ p : Parts, p.Fit → ∀ c t, p.key ++ p.gap = c :: t → isSpace c = false := by
    intro p hp c t hc
    obtain ⟨x, k, hx⟩ := List.exists_cons_of_ne_nil hp.key_ne
    rw [hx, List.cons_append] at hc
    obtain ⟨rfl, -⟩ := List.cons.inj hc
    exact hp.key x (by simp [hx])
  have hgap : ∀ p : Parts, p.Fit → ∀ c t, p.gap = c :: t → (!isSpace c) = false := by
    intro p hp c t hc
    rw [hp.gap c (by simp [hc])]
    rfl
  obtain ⟨hlead, hrest⟩ := run_end_unique hp.lead hq.lead (hhead p hp) (hhead q hq) hsame
  obtain ⟨hkey, hgap⟩ := @run_end_unique (fun c => !isSpace c) _ _ _ _
    (fun c hc => by simp [hp.key c hc]) (fun c hc => by simp [hq.key c hc]) (hgap p hp) (hgap q hq)
    hrest
  exact ⟨hlead.symm, hkey.symm, hgap.symm, hright.symm⟩

/-- A piece that is not shorter, of the same text, is the same if the rest cannot begin with a
character of it. -/
theorem piece_unique {w w' r r' : List Char} (hlen : w.length ≤ w'.length)
    (h : w ++ r = w' ++ r') (hend : ∀ c ∈ w', ∀ t, r ≠ c :: t) : w' = w ∧ r' = r := by
  rcases List.append_eq_append_iff.mp h with ⟨a, rfl, ha⟩ | ⟨a, rfl, ha⟩
  · cases a with
    | nil => exact ⟨List.append_nil w, ha.symm⟩
    | cons c a => exact absurd ha (hend c (by simp) _)
  · obtain rfl : a = [] := by
      rw [List.length_append] at hlen
      exact List.eq_nil_of_length_eq_zero (by omega)
    exact ⟨(List.append_nil w').symm, ha⟩

/-- A value does not begin with a quote. -/
theorem Fit.value_quote (h : p.Fit) {c : Char} (hc : c = '\x22') (rest t : List Char) :
    p.value ++ rest ≠ c :: t := by
  intro heq
  obtain ⟨x, v, hv⟩ := List.exists_cons_of_ne_nil h.value_ne
  rw [hv, List.cons_append] at heq
  obtain ⟨rfl, -⟩ := List.cons.inj heq
  exact (h.value x (by simp [hv])).1 hc

/-- What follows the white space before the value does not begin with white space. -/
theorem Settled.front_space (h : p.Settled) {c : Char} (hc : isSpace c = true)
    (rest t : List Char) : p.quote ++ (p.value ++ rest) ≠ c :: t := by
  intro heq
  rcases hquote : p.quote with _ | ⟨x, u⟩
  · rw [hquote, List.nil_append] at heq
    obtain ⟨x, v, hv⟩ := List.exists_cons_of_ne_nil h.fit.value_ne
    rw [hv, List.cons_append] at heq
    obtain ⟨rfl, -⟩ := List.cons.inj heq
    rw [h.front hquote x v hv] at hc
    cases hc
  · rw [hquote, List.cons_append] at heq
    obtain ⟨rfl, -⟩ := List.cons.inj heq
    exact ne_of_isSpace hc (by decide) (h.fit.quote x (by simp [hquote]))

/-- What follows the value begins with a quote or a space, if it begins at all. -/
theorem Settled.back_value (h : p.Settled) {c : Char} (hc : c ≠ '\x22' ∧ c ≠ ' ')
    (t : List Char) : p.quote' ++ p.tail ≠ c :: t := by
  intro heq
  rcases hquote' : p.quote' with _ | ⟨x, u⟩
  · rw [hquote', List.nil_append] at heq
    exact hc.2 (h.back hquote' c t heq)
  · rw [hquote', List.cons_append] at heq
    obtain ⟨rfl, -⟩ := List.cons.inj heq
    exact hc.1 (h.fit.quote' x (by simp [hquote']))

/-- `regexec` finds the pieces that are settled. -/
theorem Settled.regexec (h : p.Settled) : regexec valregex p.text = some p.pieces := by
  have hmatch := matches_parts.mpr ⟨p, h.fit, rfl, rfl⟩
  obtain ⟨ps, hps, hfound⟩ := search_here hmatch
  obtain ⟨q, hq, htext, rfl⟩ := matches_parts.mp hfound
  have hgreedy := regexec_greedy hps hmatch (consumed_pieces htext)
  obtain ⟨hlead, hkey, hgap, hright⟩ := h.fit.left_unique hq h.key h.value htext
  rw [right, right] at hright
  -- the white space before the value
  have hgap' : p.gap'.length ≤ q.gap'.length :=
    hgreedy [q.lead, q.key, q.gap, ['=']] _ _ _ _ rfl (by rw [hlead, hkey, hgap]; rfl)
  obtain ⟨hgap', hright⟩ := piece_unique hgap' hright.symm
    fun c hc t => h.front_space (hq.gap' c hc) _ t
  -- the quote
  have hquote : p.quote.length ≤ q.quote.length :=
    hgreedy [q.lead, q.key, q.gap, ['='], q.gap'] _ _ _ _ rfl
      (by rw [hlead, hkey, hgap, hgap']; rfl)
  obtain ⟨hquote, hright⟩ := piece_unique hquote hright.symm
    fun c hc t => h.fit.value_quote (hq.quote c hc) _ t
  -- the value
  have hvalue : p.value.length ≤ q.value.length :=
    hgreedy [q.lead, q.key, q.gap, ['='], q.gap', q.quote] _ _ _ _ rfl
      (by rw [hlead, hkey, hgap, hgap', hquote]; rfl)
  obtain ⟨hvalue, hright⟩ := piece_unique hvalue hright.symm
    fun c hc t => h.back_value (hq.value c hc) t
  -- the quote behind it
  have hquote' : p.quote'.length ≤ q.quote'.length :=
    hgreedy [q.lead, q.key, q.gap, ['='], q.gap', q.quote, q.value] _ _ _ _ rfl
      (by rw [hlead, hkey, hgap, hgap', hquote, hvalue]; rfl)
  obtain ⟨hquote', htail⟩ := piece_unique hquote' hright.symm (by
    intro c hc t heq
    have hspace := h.fit.tail c (by simp [heq])
    exact ne_of_isSpace hspace (by decide) (hq.quote' c hc))
  have hsame : q.pieces = p.pieces := by
    rw [pieces, hlead, hkey, hgap, hgap', hquote, hvalue, hquote', htail]
    rfl
  rw [← hsame]
  exact hps

/-- Conversely, what it finds is settled, if the key and the value have no `=` and the value is not
all white space. -/
theorem settled_of_regexec {s : List Char} {ps : List (List Char)}
    (h : Ere.regexec valregex s = some ps) (hkey : '=' ∉ group valregex 1 ps)
    (hvalue : '=' ∉ group valregex 2 ps) (hsolid : ∃ c ∈ group valregex 2 ps, isSpace c = false) :
    ∃ p : Parts, p.Settled ∧ s = p.text ∧ group valregex 1 ps = p.key ∧
      group valregex 2 ps = p.value := by
  obtain ⟨p, hp, hs, rfl⟩ := regexec_parts h
  rw [p.group_key] at hkey
  rw [p.group_value] at hvalue hsolid
  obtain ⟨x, hx, hxspace⟩ := hsolid
  have hgreedy : ∀ q : Parts, q.Fit → q.text = p.text → Greedier p.pieces q.pieces := by
    intro q hq htext
    refine regexec_greedy h (matches_parts.mpr ⟨q, hq, ?_, rfl⟩) (consumed_pieces htext)
    rw [hs, htext]
  refine ⟨p, ⟨hp, hkey, hvalue, fun hquote c v hv => ?_, fun hquote' c t ht => ?_⟩, hs, p.group_key,
    p.group_value⟩
  · by_contra hspace
    rw [Bool.not_eq_false] at hspace
    have hvne : v ≠ [] := by
      rintro rfl
      rw [hv, List.mem_singleton] at hx
      rw [← hx, hxspace] at hspace
      cases hspace
    -- the white space could be longer
    let q : Parts := { p with gap' := p.gap' ++ [c], value := v }
    have hfit : q.Fit := by
      refine ⟨hp.lead, hp.key_ne, hp.key, hp.gap, ?_, hp.quote_le, hp.quote, hvne, ?_,
        hp.quote'_le, hp.quote', hp.tail⟩
      · intro d hd
        rcases List.mem_append.mp hd with hd | hd
        · exact hp.gap' d hd
        · rwa [List.mem_singleton.mp hd]
      · intro d hd
        exact hp.value d (by rw [hv]; exact List.mem_cons_of_mem c hd)
    have htext : q.text = p.text := by
      simp [q, text, right, hquote, hv]
    have hle := hgreedy q hfit htext [p.lead, p.key, p.gap, ['=']] _ _ _ _ rfl rfl
    simp only [q, List.length_append, List.length_singleton] at hle
    omega
  · by_contra hne
    have hspace := hp.tail c (by simp [ht])
    -- the value could be longer
    let q : Parts := { p with value := p.value ++ [c], tail := t }
    have hfit : q.Fit := by
      refine ⟨hp.lead, hp.key_ne, hp.key, hp.gap, hp.gap', hp.quote_le, hp.quote, by simp [q], ?_,
        hp.quote'_le, hp.quote', fun d hd => hp.tail d (by simp [ht, show d ∈ t from hd])⟩
      intro d hd
      rcases List.mem_append.mp hd with hd | hd
      · exact hp.value d hd
      · rw [List.mem_singleton.mp hd]
        exact ⟨ne_of_isSpace hspace (by decide), hne⟩
    have htext : q.text = p.text := by
      simp [q, text, right, hquote', ht]
    have hle := hgreedy q hfit htext [p.lead, p.key, p.gap, ['='], p.gap', p.quote] _ _ _ _ rfl rfl
    simp only [q, List.length_append, List.length_singleton] at hle
    omega

/-! ## White space behind a line -/

/-- White space behind a setting goes to its tail. -/
theorem Fit.append {ws : List Char} (h : p.Fit) (hws : ∀ c ∈ ws, isSpace c = true) :
    Fit { p with tail := p.tail ++ ws } := by
  refine ⟨h.lead, h.key_ne, h.key, h.gap, h.gap', h.quote_le, h.quote, h.value_ne, h.value,
    h.quote'_le, h.quote', fun c hc => ?_⟩
  rcases List.mem_append.mp hc with hc | hc
  · exact h.tail c hc
  · exact hws c hc

theorem text_append (p : Parts) (ws : List Char) :
    text { p with tail := p.tail ++ ws } = p.text ++ ws := by
  simp [text, right]

/-- Where the pieces of a line without the white space behind it end: behind the value, or in it. -/
inductive Cut (p : Parts) (line ws : List Char) : Parts → Prop
  | behind (quote' tail : List Char) (hfit : Fit { p with quote', tail })
      (hquote' : quote' = [] → p.quote' = []) (htail : ∃ rest, p.tail = tail ++ rest)
      (hends : p.Settled → EndsValue line ws) : Cut p line ws { p with quote', tail }
  | inside (value space : List Char) (hvalue : p.value = value ++ space) (hne : space ≠ [])
      (hspace : ∀ c ∈ space, isSpace c = true)
      (hfit : Fit { p with value, quote' := [], tail := [] }) :
      Cut p line ws { p with value, quote' := [], tail := [] }

/-- What stands before the value -/
def beforeValue (p : Parts) : List Char :=
  p.lead ++ (p.key ++ (p.gap ++ '=' :: (p.gap' ++ p.quote)))

theorem text_eq_beforeValue (p : Parts) :
    p.text = p.beforeValue ++ (p.value ++ (p.quote' ++ p.tail)) := by
  simp [text, right, beforeValue]

/-- The line goes on behind the value, or ends with it. -/
theorem Fit.cut_behind {line ws a : List Char} (h : p.Fit) (hws : ∀ c ∈ ws, isSpace c = true)
    (hline : line = p.beforeValue ++ (p.value ++ a)) (hrest : p.quote' ++ p.tail = a ++ ws) :
    ∃ q : Parts, line = q.text ∧ Cut p line ws q := by
  -- what is cut off behind the value leaves a line that ends in a space or a quote
  have hlast : ∀ b : List Char, b ≠ [] → (∀ c ∈ b, isSpace c = true ∨ c = '\x22') →
      line = p.beforeValue ++ (p.value ++ b) → EndsValue line ws := by
    intro b hne hb hline
    obtain ⟨b', c, rfl⟩ := (List.eq_nil_or_concat' b).resolve_left hne
    exact Or.inr ⟨p.beforeValue ++ (p.value ++ b'), c, by simp [hline], hb c (by simp)⟩
  -- the value has no closing quote, or it has one
  rcases hquote' : p.quote' with _ | ⟨y, u⟩
  · rw [hquote', List.nil_append] at hrest
    have hspace : ∀ c ∈ a, isSpace c = true := fun c hc => h.tail c (by simp [hrest, hc])
    refine ⟨{ p with quote' := [], tail := a }, ?_, .behind [] a ?_ (fun _ => hquote') ⟨ws, hrest⟩
      fun hsettled => ?_⟩
    · rw [hline, text_eq_beforeValue]
      rfl
    · exact ⟨h.lead, h.key_ne, h.key, h.gap, h.gap', h.quote_le, h.quote, h.value_ne, h.value,
        by simp, by simp, hspace⟩
    · by_cases ha : a = []
      · subst ha
        exact Or.inl fun c t hc => hsettled.back hquote' c t (hrest.trans hc)
      · exact hlast a ha (fun c hc => Or.inl (hspace c hc)) hline
  · have hy : y = '\x22' := h.quote' y (by simp [hquote'])
    have hu : u = [] := by
      have hle := h.quote'_le
      rw [hquote', List.length_cons] at hle
      exact List.eq_nil_of_length_eq_zero (by omega)
    subst hu
    rw [hquote', List.singleton_append] at hrest
    cases a with
    | nil =>
      have hmem : y ∈ ws := by
        rw [← List.nil_append ws, ← hrest]
        exact List.mem_cons_self ..
      exact absurd hy (ne_of_isSpace (hws y hmem) (by decide))
    | cons z a =>
      obtain ⟨rfl, htail⟩ := List.cons.inj hrest
      have hspace : ∀ c ∈ a, isSpace c = true := fun c hc => h.tail c (by simp [htail, hc])
      refine ⟨{ p with quote' := [y], tail := a }, ?_, .behind [y] a ?_
        (fun hnil => by cases hnil) ⟨ws, htail⟩ fun _ => ?_⟩
      · rw [hline, text_eq_beforeValue]
        rfl
      · exact ⟨h.lead, h.key_ne, h.key, h.gap, h.gap', h.quote_le, h.quote, h.value_ne, h.value,
          by simp, by simpa using hy, hspace⟩
      · refine hlast (y :: a) (by simp) (fun c hc => ?_) hline
        rcases List.mem_cons.mp hc with rfl | hc
        · exact Or.inr hy
        · exact Or.inl (hspace c hc)

/-- The line ends in the value, which goes on with white space. -/
theorem Fit.cut_inside {line ws a : List Char} (h : p.Fit) (ha : a ≠ [])
    (hspace : ∀ c ∈ a, isSpace c = true) (hsolid : ∃ c ∈ p.value, isSpace c = false)
    (hvalue : p.beforeValue ++ p.value = line ++ a) :
    ∃ q : Parts, line = q.text ∧ Cut p line ws q := by
  obtain ⟨x, hx, hxspace⟩ := hsolid
  have hnotall : ∀ b, a ≠ b ++ p.value := by
    rintro b rfl
    rw [hspace x (List.mem_append_right b hx)] at hxspace
    cases hxspace
  rcases List.append_eq_append_iff.mp hvalue with ⟨b, hb, hvalue'⟩ | ⟨b, -, hb⟩
  · refine ⟨{ p with value := b, quote' := [], tail := [] }, ?_, .inside b a hvalue' ha hspace ?_⟩
    · rw [hb, text_eq_beforeValue]
      exact congrArg (p.beforeValue ++ ·) (List.append_nil b).symm
    · refine ⟨h.lead, h.key_ne, h.key, h.gap, h.gap', h.quote_le, h.quote, ?_, ?_, by simp, by simp,
        by simp⟩
      · rintro rfl
        exact hnotall [] hvalue'.symm
      · exact fun c hc => h.value c (by simp [hvalue', hc])
  · exact absurd hb (hnotall b)

/-- A match of a line with white space behind it is, cut off somewhere, one of the line. -/
theorem Fit.cut {line ws : List Char} (h : p.Fit) (htext : p.text = line ++ ws)
    (hws : ∀ c ∈ ws, isSpace c = true) (hsolid : ∃ c ∈ p.value, isSpace c = false) :
    ∃ q : Parts, line = q.text ∧ Cut p line ws q := by
  have hsplit : (p.beforeValue ++ p.value) ++ (p.quote' ++ p.tail) = line ++ ws := by
    rw [← htext, text_eq_beforeValue, List.append_assoc]
  rcases List.append_eq_append_iff.mp hsplit with ⟨a, hline, hrest⟩ | ⟨a, hvalue, hrest⟩
  · exact h.cut_behind hws (by rw [hline, List.append_assoc]) hrest
  · by_cases ha : a = []
    · subst ha
      rw [List.append_nil] at hvalue
      rw [List.nil_append] at hrest
      refine @Fit.cut_behind p line ws [] h hws ?_ hrest.symm
      rw [← hvalue, List.append_nil]
    · exact h.cut_inside ha (fun c hc => hws c (by simp [hrest, hc])) hsolid hvalue

/-- A value cut shorter is settled as well. -/
theorem Settled.of_cut {line ws : List Char} (hp : p.Settled) (h : Cut p line ws q) :
    q.Settled := by
  cases h with
  | behind quote' tail hfit hquote' htail _ =>
    obtain ⟨rest, hrest⟩ := htail
    refine ⟨hfit, hp.key, hp.value, hp.front, fun hnil c t hc => ?_⟩
    dsimp only at hnil hc
    exact hp.back (hquote' hnil) c (t ++ rest) (by rw [hrest, hc, List.cons_append])
  | inside value space hvalue _ _ hfit =>
    refine ⟨hfit, hp.key, fun hmem => ?_, fun hquote c v hc => ?_, fun _ c t hc => ?_⟩
    · exact hp.value (by rw [hvalue]; exact List.mem_append_left space hmem)
    · dsimp only at hc
      exact hp.front hquote c (v ++ space) (by rw [hvalue, hc, List.cons_append])
    · cases hc

/-- White space that the value does not take is behind it. -/
theorem Settled.append {ws : List Char} (hp : p.Settled) (hws : ∀ c ∈ ws, isSpace c = true)
    (hsolid : EndsSolid p.value) (hends : EndsValue p.text ws) :
    Settled { p with tail := p.tail ++ ws } := by
  refine ⟨hp.fit.append hws, hp.key, hp.value, hp.front, fun hquote' c t hc => ?_⟩
  dsimp only at hquote' hc
  cases htail : p.tail with
  | cons x u =>
    rw [htail, List.cons_append] at hc
    obtain ⟨rfl, -⟩ := List.cons.inj hc
    exact hp.back hquote' x u htail
  | nil =>
    rw [htail, List.nil_append] at hc
    rcases hends with hspace | ⟨front, d, hline, hd⟩
    · exact hspace c t hc
    · -- the line ends with the value, and so in neither
      obtain ⟨v, x, hv, hx⟩ := hsolid
      have htext : p.text =
          (p.lead ++ (p.key ++ (p.gap ++ '=' :: (p.gap' ++ (p.quote ++ v))))) ++ [x] := by
        simp [text, right, hquote', htail, hv]
      rw [htext] at hline
      obtain ⟨-, hxd⟩ := List.append_inj' hline rfl
      obtain rfl : x = d := by simpa using hxd
      rcases hd with hd | hd
      · rw [hd] at hx
        cases hx
      · exact absurd hd (hp.fit.value x (by simp [hv])).1

/-- Two matches of a line begin at the same place, and have the same key if the keys are as long as
each other. -/
theorem Fit.begin_unique (hp : p.Fit) (hq : q.Fit) (h : p.text = q.text) :
    q.lead = p.lead ∧ (q.key.length = p.key.length → q.key = p.key) := by
  have hhead : ∀ p : Parts, p.Fit → ∀ rest c t, p.key ++ rest = c :: t → isSpace c = false := by
    intro p hp rest c t hc
    obtain ⟨x, k, hx⟩ := List.exists_cons_of_ne_nil hp.key_ne
    rw [hx, List.cons_append] at hc
    obtain ⟨rfl, -⟩ := List.cons.inj hc
    exact hp.key x (by simp [hx])
  obtain ⟨hlead, hrest⟩ := run_end_unique hp.lead hq.lead (hhead p hp _) (hhead q hq _) h
  exact ⟨hlead.symm, fun hlen => (List.append_inj hrest hlen.symm).1.symm⟩

theorem Cut.fit {line ws : List Char} (h : Cut p line ws q) :
    q.Fit ∧ q.lead = p.lead ∧ q.key = p.key := by
  cases h with
  | behind _ _ hfit => exact ⟨hfit, rfl, rfl⟩
  | inside _ _ _ _ _ hfit => exact ⟨hfit, rfl, rfl⟩

/-- A match has no shorter key than others of the same line. -/
theorem key_length_le {s : List Char} (h : Ere.regexec valregex s = some p.pieces) (hp : p.Fit)
    (hq : q.Fit) (hps : s = p.text) (hqs : s = q.text) : q.key.length ≤ p.key.length := by
  have hgreedy := regexec_greedy h (matches_parts.mpr ⟨q, hq, hqs, rfl⟩)
    (consumed_pieces (hqs.symm.trans hps))
  obtain ⟨hlead, -⟩ := hp.begin_unique hq (hps.symm.trans hqs)
  exact hgreedy [p.lead] _ _ _ _ rfl (by rw [← hlead]; rfl)

end Parts

/-- The key on a line -/
def configKey (buffer : List Char) : Option (List Char) :=
  (regexec valregex buffer).map fun pmatch => strtolower (group valregex 1 pmatch)

/-- A line has a key and a value if the pattern matches and both fit. -/
theorem configPair_eq_some {buffer key value : List Char} :
    configPair buffer = some (key, value) ↔ ∃ ps, regexec valregex buffer = some ps ∧
      (group valregex 1 ps).length < configKeySize ∧
      (group valregex 2 ps).length < configBufferSize ∧
      key = strtolower (group valregex 1 ps) ∧ value = group valregex 2 ps := by
  have hcopy : ∀ (s : List Char) n, (strsncpyStr s n s.length).1 < 0 ↔ n ≤ s.length := by
    intro s n
    rw [strsncpyStr]
    split_ifs with h h'
    · simp [h, e2big]
    · exact absurd h' (lt_irrefl _)
    · simp [h]
  rw [configPair]
  rcases regexec valregex buffer with _ | ps
  · simp
  · dsimp only
    simp only [hcopy, Option.some.injEq, exists_eq_left']
    split_ifs with hkey hvalue
    · refine iff_of_false (by simp) fun h => ?_
      exact absurd h.1 (Nat.not_lt.mpr hkey)
    · refine iff_of_false (by simp) fun h => ?_
      exact absurd h.2.1 (Nat.not_lt.mpr hvalue)
    · rw [strsncpyStr_fits (Nat.lt_of_not_le hkey), strsncpyStr_fits (Nat.lt_of_not_le hvalue),
        Option.some.injEq, Prod.mk.injEq, and_iff_right (Nat.lt_of_not_le hkey),
        and_iff_right (Nat.lt_of_not_le hvalue), eq_comm, @eq_comm _ (group valregex 2 ps)]

section Append

variable {line ws : List Char}

/-- White space behind a line does not make a key of something else. -/
theorem configKey_of_append {ps : List (List Char)} (hws : ∀ c ∈ ws, isSpace c = true)
    (h : regexec valregex (line ++ ws) = some ps)
    (hsolid : ∃ c ∈ group valregex 2 ps, isSpace c = false) :
    configKey line = some (strtolower (group valregex 1 ps)) := by
  obtain ⟨p, hp, hptext, rfl⟩ := regexec_parts h
  rw [p.group_value] at hsolid
  obtain ⟨q, hqtext, hcut⟩ := hp.cut hptext.symm hws hsolid
  obtain ⟨hq, hqlead, hqkey⟩ := hcut.fit
  obtain ⟨ps, hps, -⟩ := search_here (matches_parts.mpr ⟨q, hq, hqtext, rfl⟩)
  obtain ⟨r, hr, hrtext, rfl⟩ := regexec_parts hps
  have hle := Parts.key_length_le hps hr hq hrtext hqtext
  -- its own key is a key of the longer line
  have hge : r.key.length ≤ p.key.length := by
    refine @Parts.key_length_le p { r with tail := r.tail ++ ws } _ h hp (hr.append hws) hptext ?_
    rw [Parts.text_append, ← hrtext]
  have hkey : r.key = q.key := by
    refine (hq.begin_unique hr (hqtext.symm.trans hrtext)).2 ?_
    rw [hqkey] at hle ⊢
    exact Nat.le_antisymm hge hle
  have hfound : regexec valregex line = some r.pieces := hps
  rw [configKey, hfound, Option.map_some, r.group_key, p.group_key, hkey, hqkey]

end Append

/-! ## What a line is read as -/

/-- A numeral ends in a digit, and has no `=`. -/
theorem numeral_solid (n : Numeral) : '=' ∉ n.text ∧ EndsSolid n.text := by
  refine ⟨fun hmem => ?_, ?_⟩
  · rw [Numeral.text, List.mem_append, List.mem_append] at hmem
    rcases hmem with hmem | hmem | hmem
    · exact ne_of_isSpace (n.isSpace_space _ hmem) (by decide) rfl
    · cases hsign : n.sign <;> simp [hsign, Sign.text] at hmem
    · exact absurd (n.isDigit_digits _ hmem) (by decide)
  · obtain ⟨ds, d, hd⟩ := (List.eq_nil_or_concat' n.digits).resolve_left n.digits_ne_nil
    refine ⟨n.space ++ (n.sign.text ++ ds), d, by simp [Numeral.text, hd], ?_⟩
    exact isSpace_of_isDigit (n.isDigit_digits d (by simp [hd]))

/-- So does everything that a handler accepts, except that of the matrix. -/
theorem ConfigKey.read_solid {k : ConfigKey} {value : List Char} {s : Setting} (hk : k ≠ .matrix)
    (h : k.read value = some s) : '=' ∉ value ∧ EndsSolid value := by
  have hnumber : ∀ low high, (strstoulRange value low high).1 = 0 →
      '=' ∉ value ∧ EndsSolid value := by
    intro low high hzero
    obtain ⟨n, rfl, -⟩ := strstoulRange_eq_zero_iff.mp hzero
    exact numeral_solid n
  cases k with
  | interval =>
    simp only [ConfigKey.read] at h
    split_ifs at h with hr
    exact hnumber _ _ (not_not.mp hr)
  | hysteresis =>
    simp only [ConfigKey.read] at h
    split_ifs at h with hr
    exact hnumber _ _ (not_not.mp hr)
  | matrix => exact absurd rfl hk
  | throttle =>
    simp only [ConfigKey.read] at h
    split_ifs at h with htrue hfalse
    · subst htrue
      exact ⟨by decide, ['t', 'r', 'u'], 'e', rfl, by decide⟩
    · subst hfalse
      exact ⟨by decide, ['f', 'a', 'l', 's'], 'e', rfl, by decide⟩

/-- The setting of a line, and the lines behind it -/
def readSetting (buffer : List Char) (fp : List (List Char)) :
    Option (Setting × List (List Char)) :=
  (configSetting buffer fp).bind fun r => (r.1.read r.2.1).map fun s => (s, r.2.2)

section Append

variable {line ws : List Char}

theorem EndsSolid.exists {w : List Char} (h : EndsSolid w) : ∃ c ∈ w, isSpace c = false := by
  obtain ⟨u, c, rfl, hc⟩ := h
  exact ⟨c, by simp, hc⟩

/-- A line with a setting other than the matrix, as its pieces -/
theorem readSetting_iff {k : ConfigKey} {value : List Char} {s : Setting} (hk : k ≠ .matrix) :
    configPair line = some (k.name, value) ∧ k.read value = some s ↔
      ∃ p : Parts, p.Settled ∧ line = p.text ∧ strtolower p.key = k.name ∧ p.value = value ∧
        value.length < configBufferSize ∧ k.read value = some s := by
  rw [configPair_eq_some]
  refine ⟨?_, ?_⟩
  · rintro ⟨⟨ps, hps, -, hlen, hkey, rfl⟩, hread⟩
    obtain ⟨hvalue, hsolid⟩ := ConfigKey.read_solid hk hread
    have hnokey : '=' ∉ group valregex 1 ps := by
      intro hmem
      have hlower : Char.toLower '=' ∈ k.name := by
        rw [hkey]
        exact List.mem_map_of_mem hmem
      cases k <;> revert hlower <;> decide
    obtain ⟨p, hp, hline, hpkey, hpvalue⟩ :=
      Parts.settled_of_regexec hps hnokey hvalue hsolid.exists
    exact ⟨p, hp, hline, by rw [← hpkey, hkey], hpvalue.symm, hlen, hread⟩
  · rintro ⟨p, hp, rfl, hkey, rfl, hlen, hread⟩
    refine ⟨⟨p.pieces, hp.regexec, ?_, ?_, ?_, p.group_value.symm⟩, hread⟩
    · have hname : p.key.length = k.name.length := by
        rw [← hkey, strtolower, List.length_map]
      rw [p.group_key, hname]
      cases k <;> decide
    · rwa [p.group_value]
    · rw [p.group_key, hkey]

/-- With white space behind it, a line is read as before if the value ends where it did, and not at
all otherwise. -/
theorem reads_append {k : ConfigKey} {value : List Char} {s : Setting} (hk : k ≠ .matrix)
    (hws : ∀ c ∈ ws, isSpace c = true) :
    configPair (line ++ ws) = some (k.name, value) ∧ k.read value = some s ↔
      (configPair line = some (k.name, value) ∧ k.read value = some s) ∧ EndsValue line ws := by
  rw [readSetting_iff hk, readSetting_iff hk]
  refine ⟨?_, ?_⟩
  · rintro ⟨p, hp, htext, hkey, rfl, hlen, hread⟩
    obtain ⟨-, hsolid⟩ := ConfigKey.read_solid hk hread
    obtain ⟨q, hqtext, hcut⟩ := hp.fit.cut htext.symm hws hsolid.exists
    have hq := hp.of_cut hcut
    cases hcut with
    | behind quote' tail _ _ _ hends => exact ⟨⟨_, hq, hqtext, hkey, rfl, hlen, hread⟩, hends hp⟩
    | inside value space hvalue hne hspace _ =>
      -- the last character is no white space
      obtain ⟨u, c, hc, hcspace⟩ := hsolid
      obtain ⟨x, d, rfl⟩ := (List.eq_nil_or_concat' space).resolve_left hne
      rw [hc, ← List.append_assoc] at hvalue
      obtain ⟨-, hcd⟩ := List.append_inj' hvalue rfl
      obtain rfl : c = d := by simpa using hcd
      rw [hspace c (by simp)] at hcspace
      cases hcspace
  · rintro ⟨⟨p, hp, rfl, hkey, rfl, hlen, hread⟩, hends⟩
    obtain ⟨-, hsolid⟩ := ConfigKey.read_solid hk hread
    exact ⟨_, hp.append hws hsolid hends, (p.text_append ws).symm, hkey, rfl, hlen, hread⟩

/-- The line does not begin a matrix. -/
def NoMatrix (line : List Char) : Prop :=
  ∀ fp value rest, configSetting line fp ≠ some (.matrix, value, rest)

theorem configKey_of_configPair {key value : List Char} (h : configPair line = some (key, value)) :
    configKey line = some key := by
  obtain ⟨ps, hps, -, -, rfl, -⟩ := configPair_eq_some.mp h
  rw [configKey, hps, Option.map_some]

/-- A line with another key does not, -/
theorem noMatrix_line (hkey : configKey line ≠ some ConfigKey.matrix.name) : NoMatrix line := by
  intro fp value rest hset
  obtain ⟨v, hpair, -⟩ := configSetting_some hset
  exact hkey (configKey_of_configPair hpair)

/-- nor does it with white space behind it. -/
theorem noMatrix_append (hkey : configKey line ≠ some ConfigKey.matrix.name)
    (hws : ∀ c ∈ ws, isSpace c = true) : NoMatrix (line ++ ws) := by
  intro fp value rest hset
  obtain ⟨v, hpair, hvalue⟩ := configSetting_some hset
  obtain ⟨ps, hps, -, -, hname, rfl⟩ := configPair_eq_some.mp hpair
  rw [configValue, if_pos rfl, configAppendMatrixRows] at hvalue
  rcases hstart : submatch mpatStart 1 (group valregex 2 ps) with _ | row
  · rw [hstart] at hvalue
    cases hvalue
  · obtain ⟨w, rfl, pre, suf, hgroup, -⟩ := submatch_start.mp hstart
    have hparen : '(' ∈ group valregex 2 ps := by
      rw [hgroup]
      simp
    rw [hname] at hkey
    exact hkey (configKey_of_append hws hps ⟨'(', hparen, by decide⟩)

/-- On a line that begins no matrix, a setting is what a handler accepts. -/
theorem readSetting_eq_some (hno : NoMatrix line) {fp rest : List (List Char)} {s : Setting} :
    readSetting line fp = some (s, rest) ↔ rest = fp ∧ ∃ k value, k ≠ ConfigKey.matrix ∧
      configPair line = some (k.name, value) ∧ k.read value = some s := by
  refine ⟨fun h => ?_, ?_⟩
  · obtain ⟨⟨k, value, fp'⟩, hset, hread⟩ := Option.bind_eq_some_iff.mp h
    obtain ⟨s', hs', heq⟩ := Option.map_eq_some_iff.mp hread
    cases heq
    have hk : k ≠ .matrix := by
      rintro rfl
      exact hno fp value fp' hset
    obtain ⟨v, hpair, hvalue⟩ := configSetting_some hset
    rw [configValue, if_neg (mt ConfigKey.name_eq_matrix.mp hk)] at hvalue
    cases hvalue
    exact ⟨rfl, k, value, hk, hpair, hs'⟩
  · rintro ⟨rfl, k, value, hk, hpair, hread⟩
    have hfind : configMap.find? (fun k' => k'.name = k.name) = some k := by
      cases k <;> decide
    rw [readSetting, configSetting, hpair]
    dsimp only
    rw [configValue, if_neg (mt ConfigKey.name_eq_matrix.mp hk)]
    dsimp only
    rw [hfind]
    simp only [Option.bind_some, hread, Option.map_some]

/-- White space behind a line with a setting leaves the setting as it is exactly if the value ends
there. -/
theorem readSetting_append (hkey : configKey line ≠ some ConfigKey.matrix.name)
    (hws : ∀ c ∈ ws, isSpace c = true) {fp rest : List (List Char)} {s : Setting} :
    readSetting (line ++ ws) fp = some (s, rest) ↔
      readSetting line fp = some (s, rest) ∧ EndsValue line ws := by
  rw [readSetting_eq_some (noMatrix_append hkey hws), readSetting_eq_some (noMatrix_line hkey)]
  refine ⟨?_, ?_⟩
  · rintro ⟨rfl, k, value, hk, hreads⟩
    obtain ⟨hreads', hends⟩ := (reads_append hk hws).mp hreads
    exact ⟨⟨rfl, k, value, hk, hreads'⟩, hends⟩
  · rintro ⟨⟨rfl, k, value, hk, hreads⟩, hends⟩
    exact ⟨rfl, k, value, hk, (reads_append hk hws).mpr ⟨hreads, hends⟩⟩

end Append

/-! ## The parser at such a line -/

section Loop

variable {n : ℕ} {line : List Char} {fp rest : List (List Char)} {s : Setting}

/-- A handler that does not accept a value leaves the record alone, except that of the matrix. -/
theorem ConfigKey.handler_keeps {k : ConfigKey} {value : List Char} (hk : k ≠ .matrix)
    (h : k.read value = none) (data : FandConfig) : (k.handler data value).2 = data := by
  cases k with
  | interval =>
    simp only [ConfigKey.read] at h
    split_ifs at h with hr
    simp only [ConfigKey.handler, configSetInterval, if_pos hr]
  | hysteresis =>
    simp only [ConfigKey.read] at h
    split_ifs at h with hr
    simp only [ConfigKey.handler, configSetHysteresis, if_pos hr]
  | matrix => exact absurd rfl hk
  | throttle =>
    simp only [ConfigKey.read] at h
    split_ifs at h with htrue hfalse
    simp only [ConfigKey.handler, configSetThrottle, if_neg htrue, if_neg hfalse]

theorem configParseLoop_some_setting (hline : configLineEmpty (configLine line) = false)
    (h : readSetting (configLine line) fp = some (s, rest)) (data : FandConfig) :
    configParseLoop (n + 1) (line :: fp) data = configParseLoop n rest (s.apply data) := by
  obtain ⟨⟨k, value, fp'⟩, hset, hread⟩ := Option.bind_eq_some_iff.mp h
  obtain ⟨s', hs', heq⟩ := Option.map_eq_some_iff.mp hread
  cases heq
  dsimp only at hs'
  rw [configParseLoop, if_neg (by simp [hline]), hset]
  dsimp only
  rw [ConfigKey.handler_some hs', if_neg (by simp)]

theorem configParseLoop_no_setting (hline : configLineEmpty (configLine line) = false)
    (hno : NoMatrix (configLine line)) (h : readSetting (configLine line) fp = none)
    (data : FandConfig) :
    (configParseLoop (n + 1) (line :: fp) data).1 ≠ 0 ∧
      (configParseLoop (n + 1) (line :: fp) data).2 = data := by
  rw [configParseLoop, if_neg (by simp [hline])]
  rcases hset : configSetting (configLine line) fp with _ | ⟨k, value, fp'⟩
  · exact ⟨(by decide : (-1 : ℤ) ≠ 0), rfl⟩
  · have hread : k.read value = none := by
      rw [readSetting, hset, Option.bind_some] at h
      exact Option.map_eq_none_iff.mp h
    have hk : k ≠ .matrix := by
      rintro rfl
      exact hno fp value fp' hset
    dsimp only
    rw [if_pos (ConfigKey.handler_none hread data)]
    exact ⟨ConfigKey.handler_none hread data, ConfigKey.handler_keeps hk hread data⟩

end Loop

/-! ## Files -/

/-- A file, cut where white space is to be put: behind the text of a line, or before its `#`. -/
structure CutFile where
  /-- everything before that place -/
  front : List Char
  /-- the `#` and what follows it on the line, if there is one -/
  comment : List Char
  /-- the newline that ends the line, if there is one, and the text behind it -/
  back : List Char
  comment_hash : comment = [] ∨ ∃ rest, comment = '#' :: rest
  comment_newline : '\n' ∉ comment
  back_newline : back = [] ∨ ∃ rest, back = '\n' :: rest

/-- The characters that are appended -/
def IsTrailing (c : Char) : Prop := c = ' ' ∨ c = '\t' ∨ c = '\r' ∨ c = '\x0c'

instance : DecidablePred IsTrailing := fun _ => inferInstanceAs (Decidable (_ ∨ _))

theorem IsTrailing.isSpace {c : Char} (h : IsTrailing c) : isSpace c = true := by
  rcases h with rfl | rfl | rfl | rfl <;> decide

theorem IsTrailing.visible {c : Char} (h : IsTrailing c) : c ≠ '#' ∧ c ≠ '\n' ∧ c ≠ '\x00' := by
  rcases h with rfl | rfl | rfl | rfl <;> decide

/-- A line is worked on up to the first of three characters. -/
theorem configLine_eq (line : List Char) :
    configLine line = line.takeWhile fun c => c ≠ '#' && (c ≠ '\n' && c ≠ '\x00') := by
  simp only [configLine, configStripComments, configReplaceChar, cstr, List.takeWhile_takeWhile]
  congr 1
  funext c
  by_cases h₁ : c = '#' <;> by_cases h₂ : c = '\n' <;> by_cases h₃ : c = '\x00' <;>
    simp [h₁, h₂, h₃]

/-- A line that is cut off does not depend on what is behind it. -/
theorem configLine_cut {line : List Char} (h : configLine line ≠ line) (more : List Char) :
    configLine (line ++ more) = configLine line := by
  rw [configLine_eq] at h ⊢
  rw [configLine_eq, List.takeWhile_append, if_neg]
  intro hlen
  exact h ((List.takeWhile_prefix _).eq_of_length hlen)

/-- One that is not goes on with it. -/
theorem configLine_whole {line : List Char} (h : configLine line = line) (more : List Char) :
    configLine (line ++ more) = line ++ configLine more := by
  rw [configLine_eq] at h ⊢
  rw [configLine_eq, List.takeWhile_append, if_pos (by rw [h])]

namespace CutFile

variable (f : CutFile) {ws : List Char}

/-- The file with something put there -/
def text (ws : List Char) : List Char := f.front ++ (ws ++ (f.comment ++ f.back))

/-- The lines that the parser reads before that one -/
def linesBefore : List (List Char) := (pieces (configBufferSize - 1) f.front).1

/-- What it reads of the line before that place -/
def lineFront : List Char := (pieces (configBufferSize - 1) f.front).2

/-- The line -/
def line (ws : List Char) : List Char := f.lineFront ++ (ws ++ (f.comment ++ f.back.take 1))

/-- The line, with its newline if it has one, fits the buffer. -/
def Fits (ws : List Char) : Prop := (f.line ws).length ≤ configBufferSize - 1

instance (ws : List Char) : Decidable (f.Fits ws) := inferInstanceAs (Decidable (_ ≤ _))

/-- The place is in a setting that fits the buffer, and not in a matrix. -/
structure Outside (ws : List Char) : Prop where
  reach : configReach f.linesBefore.length f.linesBefore ≠ .inside
  setting : configLineEmpty (configLine f.lineFront) = false
  key : configKey (configLine f.lineFront) ≠ some ConfigKey.matrix.name
  fits : f.Fits ws

/-- The parser stops at an error before the line or in it. -/
def Stopped : Prop :=
  configReach f.linesBefore.length f.linesBefore = .stopped ∨
    ∀ fp, readSetting (configLine f.lineFront) fp = none

/-- What is put there is behind a `#` or a NUL, or not put to the value, or the parser does not get
past the line anyway. -/
def Keeps (ws : List Char) : Prop :=
  configLine f.lineFront ≠ f.lineFront ∨ EndsValue f.lineFront ws ∨ f.Stopped

/-- A line that fits is followed by the lines of the rest of the file. -/
theorem linesOf_fits (hne : f.lineFront ≠ []) (hws : '\n' ∉ ws) (hfits : f.Fits ws) :
    linesOf configBufferSize (f.text ws) =
      f.linesBefore ++ f.line ws :: linesOf configBufferSize (f.back.drop 1) := by
  have htext : linesOf configBufferSize (f.text ws) =
      f.linesBefore ++ linesOf configBufferSize (f.lineFront ++ (ws ++ (f.comment ++ f.back))) :=
    @linesOf_pieces (configBufferSize - 1) (by decide) f.front _
  have hfront : '\n' ∉ f.lineFront := (pieces_rest (by decide) f.front).1
  have hline : '\n' ∉ f.lineFront ++ (ws ++ f.comment) := by
    simp [hfront, hws, f.comment_newline]
  rw [htext]
  rw [Fits, line] at hfits
  rw [line]
  congr 1
  obtain hback | ⟨rest, hback⟩ := f.back_newline
  · rw [hback] at hfits ⊢
    simp only [List.take_nil, List.append_nil, List.drop_nil, linesOf_nil] at hfits ⊢
    have hlen : (f.lineFront ++ (ws ++ f.comment)).length + 1 ≤ configBufferSize :=
      Nat.succ_le_of_lt (Nat.lt_of_le_pred (by decide) hfits)
    exact linesOf_last (by simp [hne]) hline hlen (by decide)
  · rw [hback] at hfits ⊢
    simp only [List.take_succ_cons, List.take_zero, List.drop_succ_cons, List.drop_zero] at hfits ⊢
    simp only [List.length_append, List.length_cons, List.length_nil] at hfits
    have hread := @CLib.linesOf_line configBufferSize _ rest hline
      (by simp only [List.length_append]; omega)
    simpa using hread

/-- What the parser sees of the line -/
theorem configLine_line (hws : ∀ c ∈ ws, IsTrailing c) (h : configLine f.lineFront = f.lineFront) :
    configLine (f.line ws) = f.lineFront ++ ws := by
  have hwhole : configLine ws = ws := by
    rw [configLine_eq, List.takeWhile_eq_self_iff]
    intro c hc
    obtain ⟨h₁, h₂, h₃⟩ := (hws c hc).visible
    simp [h₁, h₂, h₃]
  have hrest : configLine (f.comment ++ f.back.take 1) = [] := by
    rw [configLine_eq]
    obtain hcomment | ⟨c, hcomment⟩ := f.comment_hash
    · obtain hback | ⟨rest, hback⟩ := f.back_newline
      · simp [hcomment, hback]
      · simp [hcomment, hback]
    · simp [hcomment]
  rw [line, configLine_whole h, configLine_whole hwhole, hrest, List.append_nil]

/-- What `config_parse` returns after its loop -/
def finish (r : ℤ × FandConfig) : ℤ × FandConfig :=
  if r.1 ≠ 0 then r else if r.2.matrixRows = 0 then (-1, r.2) else r

/-- Two results are the same if the parser succeeds in both or in none, and leaves the same in the
record. -/
def Same (r r' : ℤ × FandConfig) : Prop := (r'.1 = 0 ↔ r.1 = 0) ∧ r'.2 = r.2

/-- Failed parses with the same record are the same. -/
theorem same_finish {r r' : ℤ × FandConfig} (hr : r.1 ≠ 0) (hr' : r'.1 ≠ 0) (h : r'.2 = r.2) :
    Same (finish r) (finish r') := by
  rw [finish, finish, if_pos hr, if_pos hr']
  exact ⟨iff_of_false hr' hr, h⟩

variable {f}

theorem Outside.lineFront_ne (h : f.Outside ws) : f.lineFront ≠ [] := by
  intro hnil
  have hset := h.setting
  rw [hnil] at hset
  cases hset

theorem newline_not_mem (hws : ∀ c ∈ ws, IsTrailing c) : '\n' ∉ ws :=
  fun hmem => (hws _ hmem).visible.2.1 rfl

theorem Outside.fits_nil (h : f.Outside ws) : f.Fits [] := by
  have hfits := h.fits
  simp only [Fits, line, List.length_append, List.length_nil] at hfits ⊢
  omega

/-- When the parser comes to the line between two settings, it goes on with it. -/
theorem configParse_line (hreach : configReach f.linesBefore.length f.linesBefore = .between)
    (hne : f.lineFront ≠ []) (data : FandConfig) :
    ∃ n fp data', ∀ ws, '\n' ∉ ws → f.Fits ws →
      configParse (some (f.text ws)) data =
        finish (configParseLoop (n + 1) (f.line ws :: fp) data') := by
  obtain ⟨k, hk, -, data', hloop⟩ := configParseLoop_between (le_refl _) hreach data
  refine ⟨f.linesBefore.length - k + (linesOf configBufferSize (f.back.drop 1)).length,
    linesOf configBufferSize (f.back.drop 1), data', fun ws hws hfits => ?_⟩
  have hlen : (f.linesBefore ++ f.line ws :: linesOf configBufferSize (f.back.drop 1)).length =
      (f.linesBefore.length - k + (linesOf configBufferSize (f.back.drop 1)).length + 1) + k := by
    rw [List.length_append, List.length_cons]
    omega
  rw [← hloop, ← hlen, ← f.linesOf_fits hne hws hfits]
  rfl

/-- Behind an error it does not see the line. -/
theorem configParse_before (hreach : configReach f.linesBefore.length f.linesBefore = .stopped)
    (hne : f.lineFront ≠ []) (data : FandConfig) :
    ∃ r, ∀ ws, '\n' ∉ ws → f.Fits ws → configParse (some (f.text ws)) data = finish r := by
  obtain ⟨r, -, hr⟩ := configParseLoop_stopped (le_refl _) hreach data
  refine ⟨r, fun ws hws hfits => ?_⟩
  have hlines := f.linesOf_fits hne hws hfits
  have hlen : f.linesBefore.length ≤ (linesOf configBufferSize (f.text ws)).length := by
    rw [hlines, List.length_append]
    exact Nat.le_add_right _ _
  rw [← hr _ (f.line ws :: linesOf configBufferSize (f.back.drop 1)) hlen, ← hlines]
  rfl

/-- A line that is not blank does not become so. -/
theorem configLineEmpty_append {line : List Char} (h : configLineEmpty line = false)
    (ws : List Char) : configLineEmpty (line ++ ws) = false := by
  rw [configLineEmpty] at h ⊢
  rw [List.all_append, h, Bool.false_and]

theorem same_of_keeps (hws : ∀ c ∈ ws, IsTrailing c) (h : f.Outside ws) (hkeeps : f.Keeps ws)
    (data : FandConfig) :
    Same (configParse (some (f.text [])) data) (configParse (some (f.text ws)) data) := by
  have hne := h.lineFront_ne
  have hnewline := newline_not_mem hws
  cases hreach : configReach f.linesBefore.length f.linesBefore with
  | inside => exact absurd hreach h.reach
  | stopped =>
    obtain ⟨r, hr⟩ := configParse_before hreach hne data
    rw [hr [] (by simp) h.fits_nil, hr ws hnewline h.fits]
    exact ⟨Iff.rfl, rfl⟩
  | between =>
    obtain ⟨n, fp, data', hparse⟩ := configParse_line hreach hne data
    rw [hparse [] (by simp) h.fits_nil, hparse ws hnewline h.fits]
    -- the line is worked on to its end, or was cut before the white space
    by_cases hwhole : configLine f.lineFront = f.lineFront
    · have hline := f.configLine_line hws hwhole
      have hline₀ : configLine (f.line []) = f.lineFront := by
        rw [f.configLine_line (by simp) hwhole, List.append_nil]
      have hset := h.setting
      have hkey := h.key
      rw [hwhole] at hset hkey
      have hspace : ∀ c ∈ ws, CLib.isSpace c = true := fun c hc => (hws c hc).isSpace
      rcases hread : readSetting f.lineFront fp with _ | ⟨s, rest⟩
      · -- the line is rejected, and with the white space behind it still is
        have hread' : readSetting (f.lineFront ++ ws) fp = none := by
          refine Option.eq_none_iff_forall_ne_some.mpr fun r hr => ?_
          obtain ⟨s, rest⟩ := r
          rw [((readSetting_append hkey hspace).mp hr).1] at hread
          cases hread
        obtain ⟨hfail, hkeep⟩ := @configParseLoop_no_setting n (f.line []) fp (by rwa [hline₀])
          (by rw [hline₀]; exact noMatrix_line hkey) (by rwa [hline₀]) data'
        obtain ⟨hfail', hkeep'⟩ := @configParseLoop_no_setting n (f.line ws) fp
          (by rw [hline]; exact configLineEmpty_append hset ws)
          (by rw [hline]; exact noMatrix_append hkey hspace) (by rwa [hline]) data'
        exact same_finish hfail hfail' (hkeep'.trans hkeep.symm)
      · have hends : EndsValue f.lineFront ws := by
          rcases hkeeps with hcut | hends | hstopped | hnone
          · exact absurd hwhole hcut
          · exact hends
          · rw [hreach] at hstopped
            cases hstopped
          · rw [hwhole] at hnone
            rw [hnone fp] at hread
            cases hread
        have hread' := (readSetting_append hkey hspace).mpr ⟨hread, hends⟩
        rw [@configParseLoop_some_setting n (f.line []) fp _ _ (by rwa [hline₀]) (by rwa [hline₀]),
          @configParseLoop_some_setting n (f.line ws) fp _ _
            (by rw [hline]; exact configLineEmpty_append hset ws) (by rwa [hline])]
        exact ⟨Iff.rfl, rfl⟩
    · have hsame : configLine (f.line ws) = configLine (f.line []) := by
        rw [line, line, configLine_cut hwhole, configLine_cut hwhole]
      rw [CommentedFile.configParseLoop_line hsame]
      exact ⟨Iff.rfl, rfl⟩

theorem fails_of_not_keeps (hws : ∀ c ∈ ws, IsTrailing c) (h : f.Outside ws)
    (hkeeps : ¬ f.Keeps ws) (data : FandConfig) :
    (configParse (some (f.text ws)) data).1 ≠ 0 := by
  rw [Keeps, not_or, not_or, not_not, Stopped, not_or] at hkeeps
  obtain ⟨hwhole, hends, hreach, -⟩ := hkeeps
  have hbetween : configReach f.linesBefore.length f.linesBefore = .between := by
    have hinside := h.reach
    cases hcase : configReach f.linesBefore.length f.linesBefore with
    | between => rfl
    | inside => exact absurd hcase hinside
    | stopped => exact absurd hcase hreach
  obtain ⟨n, fp, data', hparse⟩ := configParse_line hbetween h.lineFront_ne data
  have hline := f.configLine_line hws hwhole
  have hset := h.setting
  have hkey := h.key
  rw [hwhole] at hset hkey
  have hspace : ∀ c ∈ ws, CLib.isSpace c = true := fun c hc => (hws c hc).isSpace
  have hread : readSetting (f.lineFront ++ ws) fp = none := by
    refine Option.eq_none_iff_forall_ne_some.mpr fun r hr => ?_
    obtain ⟨s, rest⟩ := r
    exact hends ((readSetting_append hkey hspace).mp hr).2
  obtain ⟨hfail, -⟩ := @configParseLoop_no_setting n (f.line ws) fp
    (by rw [hline]; exact configLineEmpty_append hset ws)
    (by rw [hline]; exact noMatrix_append hkey hspace) (by rwa [hline]) data'
  rw [hparse ws (newline_not_mem hws) h.fits, finish, if_pos hfail]
  exact hfail

end CutFile

/-- **Trailing white space.** For every file and every run of spaces, tabs, carriage returns and
form feeds put behind a setting outside of the matrix, on a line that fits the buffer with it: the
result of `config_parse` is the same if the value does not go on with the run, or the line is not
accepted without it either. When the parser accepts one of the files, the result is the same only
then. -/
theorem trailingSpace_exact (f : CutFile) (ws : List Char) (hws : ∀ c ∈ ws, IsTrailing c)
    (h : f.Outside ws) (data : FandConfig) :
    (f.Keeps ws → CutFile.Same (configParse (some (f.text [])) data)
        (configParse (some (f.text ws)) data)) ∧
      ((configParse (some (f.text [])) data).1 = 0 ∨ (configParse (some (f.text ws)) data).1 = 0 →
        (CutFile.Same (configParse (some (f.text [])) data) (configParse (some (f.text ws)) data) ↔
          f.Keeps ws)) := by
  have hsame : f.Keeps ws → _ := fun hkeeps => CutFile.same_of_keeps hws h hkeeps data
  refine ⟨hsame, fun haccepted => ⟨fun hresult => ?_, hsame⟩⟩
  by_contra hkeeps
  have hfails := CutFile.fails_of_not_keeps hws h hkeeps data
  rcases haccepted with hzero | hzero
  · exact hfails (hresult.1.mpr hzero)
  · exact hfails hzero

theorem newline_not_mem_nil : '\n' ∉ ([] : List Char) := List.not_mem_nil

/-- A file with an interval, cut behind it -/
def fileInterval : CutFile where
  front := "interval=5".toList
  comment := []
  back := "\nmatrix=('50::20'\n'80::100')\n".toList
  comment_hash := Or.inl rfl
  comment_newline := newline_not_mem_nil
  back_newline := fileAfterValue.back_newline

/-- A space and a tab make no difference. -/
theorem trailingSpace_exact_space :
    (configParse (some (fileInterval.text " \t".toList)) .zero).1 = 0 ∧
      CutFile.Same (configParse (some (fileInterval.text [])) .zero)
        (configParse (some (fileInterval.text " \t".toList)) .zero) := by
  have houtside : fileInterval.Outside " \t".toList :=
    ⟨by decide +kernel, by decide +kernel, by decide +kernel, by decide +kernel⟩
  have hends : EndsValue fileInterval.lineFront " \t".toList := by
    refine Or.inl fun c t hc => ?_
    exact (List.cons.inj hc).1.symm
  refine ⟨by decide +kernel, ?_⟩
  exact (trailingSpace_exact fileInterval " \t".toList (by simp [IsTrailing]) houtside .zero).1
    (Or.inr (Or.inl hends))

/-- A tab does: the file is accepted without it and rejected with it. -/
theorem trailingSpace_tab :
    (∀ c ∈ "\t".toList, IsTrailing c) ∧ fileInterval.Outside "\t".toList ∧
      (configParse (some (fileInterval.text [])) .zero).1 = 0 ∧
      (configParse (some (fileInterval.text "\t".toList)) .zero).1 ≠ 0 :=
  ⟨by simp [IsTrailing],
    ⟨by decide +kernel, by decide +kernel, by decide +kernel, by decide +kernel⟩,
    by decide +kernel, by decide +kernel⟩

end AmdgpuFand
