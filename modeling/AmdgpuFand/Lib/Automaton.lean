import Mathlib.Data.List.Basic

/-!
# Automata that collect

A deterministic automaton over a text that collects something in every state it comes through and
stops in the first final one, whatever is left of the text. What it accepts are the texts with a
word in front that leads to a final state; `Spells` is the relation between a word and what has
been collected at its end, and `run_eq_some_iff` connects it to the run.
-/

universe u v w

structure Collector (σ : Type u) (α : Type v) (φ : Type w) where
  /-- what a state adds to what has been collected -/
  collect : σ → φ → φ
  final : σ → Bool
  /-- the state that a letter leads to, if there is one -/
  step : σ → α → Option σ

namespace Collector

variable {σ : Type u} {α : Type v} {φ : Type w} (A : Collector σ α φ)

/-- The run over a text: what has been collected in the final state -/
def run (q : σ) (x : φ) : List α → Option φ
  | [] => if A.final q then some (A.collect q x) else none
  | a :: s =>
    if A.final q then some (A.collect q x)
    else (A.step q a).bind fun q' => run q' (A.collect q x) s

/-- A word leads from a state to a final one. -/
inductive Spells : σ → φ → List α → φ → Prop
  | final {q : σ} {x : φ} : A.final q = true → Spells q x [] (A.collect q x)
  | step {q q' : σ} {x y : φ} {a : α} {word : List α} : A.final q = false →
      A.step q a = some q' → Spells q' (A.collect q x) word y → Spells q x (a :: word) y

variable {A} {q : σ} {x y : φ} {word : List α}

theorem run_final (h : A.final q = true) (s : List α) : A.run q x s = some (A.collect q x) := by
  cases s with
  | nil => exact if_pos h
  | cons a s => exact if_pos h

/-- A word in front of a text is run through, whatever follows. -/
theorem run_of_spells (h : A.Spells q x word y) (rest : List α) :
    A.run q x (word ++ rest) = some y := by
  induction h with
  | final hfinal => exact run_final hfinal _
  | step hlive hstep _ ih =>
    rw [List.cons_append, run, hlive, if_neg Bool.false_ne_true, hstep, Option.bind_some, ih]

/-- **What is accepted** are the texts with a word in front. -/
theorem run_eq_some_iff {s : List α} :
    A.run q x s = some y ↔ ∃ word, A.Spells q x word y ∧ word <+: s := by
  constructor
  · intro h
    induction s generalizing q x with
    | nil =>
      rw [run] at h
      split_ifs at h with hfinal
      cases h
      exact ⟨[], .final hfinal, List.prefix_rfl⟩
    | cons a s ih =>
      rw [run] at h
      split_ifs at h with hfinal
      · cases h
        exact ⟨[], .final hfinal, List.nil_prefix⟩
      · obtain ⟨q', hstep, hrest⟩ := Option.bind_eq_some_iff.mp h
        obtain ⟨word, hword, hbegins⟩ := ih hrest
        have hlive : A.final q = false := Bool.eq_false_iff.mpr hfinal
        exact ⟨a :: word, .step hlive hstep hword, List.cons_prefix_cons.mpr ⟨rfl, hbegins⟩⟩
  · rintro ⟨word, hword, rest, rfl⟩
    exact run_of_spells hword rest

/-- A text with no word in front is not accepted. -/
theorem run_eq_none_iff {s : List α} :
    A.run q x s = none ↔ ∀ word y, A.Spells q x word y → ¬ word <+: s := by
  rw [Option.eq_none_iff_forall_ne_some]
  constructor
  · intro h word y hword hbegins
    exact h y (run_eq_some_iff.mpr ⟨word, hword, hbegins⟩)
  · intro h y hrun
    obtain ⟨word, hword, hbegins⟩ := run_eq_some_iff.mp hrun
    exact h word y hword hbegins

end Collector
