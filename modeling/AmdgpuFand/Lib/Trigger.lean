import Mathlib.Algebra.Order.Group.MinMax
import Mathlib.Data.List.Pairwise
import Mathlib.Tactic.Abel

/-!
# Triggers with hysteresis

A machine that reads a value again and again and holds a level. It takes on a level only when the
value is above it, and gives a level up only when the value has fallen below it by a certain amount.
`falls` counts how often a sequence falls by that amount below the highest value it has had since
the last such fall. No such machine gives a level up more often (`Machine.count_le_falls`): it need
not do so at the same values, but between two levels given up there is a fall.

`falls` is a statement about the sequence alone. It is zero where the values stay close together
(`falls_eq_zero_iff`), and it is paid for by the falls from one value to the next
(`falls_nsmul_le`).
-/

namespace Trigger

/-! ## Falls of a sequence -/

section Falls

variable {α : Type*} [AddCommGroup α] [LinearOrder α]

/-- How often the values fall to `d` below the highest since the last such fall -/
def falls (d : α) : α → List α → ℕ
  | _, [] => 0
  | peak, t :: ts => if t + d ≤ peak then falls d t ts + 1 else falls d (max peak t) ts

/-- The sum of all falls from one value to the next -/
def totalFall : α → List α → α
  | _, [] => 0
  | last, t :: ts => max 0 (last - t) + totalFall t ts

/-- There is none exactly where no value lies `d` below an earlier one. -/
theorem falls_eq_zero_iff {d peak : α} {ts : List α} :
    falls d peak ts = 0 ↔ (peak :: ts).Pairwise fun t u => t < u + d := by
  induction ts generalizing peak with
  | nil => exact iff_of_true rfl (List.pairwise_singleton ..)
  | cons t ts ih =>
    rw [falls]
    by_cases hfall : t + d ≤ peak
    · rw [if_pos hfall]
      refine iff_of_false (Nat.succ_ne_zero _) fun h => ?_
      exact hfall.not_gt (List.rel_of_pairwise_cons h (List.mem_cons_self ..))
    · rw [if_neg hfall, ih]
      simp only [List.pairwise_cons, List.mem_cons, forall_eq_or_imp, max_lt_iff]
      have hnear := not_le.mp hfall
      constructor
      · rintro ⟨hmax, hrest⟩
        exact ⟨⟨hnear, fun u hu => (hmax u hu).1⟩, fun u hu => (hmax u hu).2, hrest⟩
      · rintro ⟨⟨-, hpeak⟩, ht, hrest⟩
        exact ⟨fun u hu => ⟨hpeak u hu, ht u hu⟩, hrest⟩

variable [IsOrderedAddMonoid α]

/-- Every fall below the highest value is made up of falls from one value to the next. -/
theorem falls_nsmul_le (d : α) {peak last : α} (hlast : last ≤ peak) (ts : List α) :
    falls d peak ts • d ≤ peak - last + totalFall last ts := by
  induction ts generalizing peak last with
  | nil =>
    rw [falls, totalFall, zero_nsmul, add_zero]
    exact sub_nonneg.mpr hlast
  | cons t ts ih =>
    rw [falls, totalFall]
    have hstep : last - t ≤ max 0 (last - t) := le_max_right ..
    by_cases hfall : t + d ≤ peak
    · have hrest := ih (le_refl t)
      rw [sub_self, zero_add] at hrest
      rw [if_pos hfall, succ_nsmul]
      calc falls d t ts • d + d
          ≤ totalFall t ts + (peak - t) := add_le_add hrest (le_sub_iff_add_le'.mpr hfall)
        _ = peak - last + (last - t) + totalFall t ts := by abel
        _ ≤ peak - last + (max 0 (last - t) + totalFall t ts) := by
            rw [add_assoc]
            exact add_le_add_right (add_le_add_left hstep _) _
    · rw [if_neg hfall]
      refine (ih (le_max_right peak t)).trans ?_
      rw [← add_assoc]
      refine add_le_add_left ?_ _
      rcases le_total peak t with hpeak | hpeak
      · rw [max_eq_right hpeak, sub_self]
        exact add_nonneg (sub_nonneg.mpr hlast) (le_max_left ..)
      · rw [max_eq_left hpeak, ← sub_add_sub_cancel peak last t]
        exact add_le_add_right hstep _

end Falls

/-! ## Counting steps -/

section Count

variable {σ ρ : Type*} (step : σ → ρ → σ)

/-- The number of steps of a run that take a state to one it is related to -/
def count (p : σ → σ → Prop) [DecidableRel p] : σ → List ρ → ℕ
  | _, [] => 0
  | s, r :: rs => (if p s (step s r) then 1 else 0) + count p (step s r) rs

variable {step}

/-- What goes up step by step, and stays below a bound, comes down in between. -/
theorem count_lt_le {inv : σ → Prop} (hinv : ∀ s r, inv s → inv (step s r)) {rank : σ → ℕ} {n : ℕ}
    (hrank : ∀ s, inv s → rank s ≤ n) {s : σ} (hs : inv s) (rs : List ρ) :
    count step (fun s s' => rank s < rank s') s rs + rank s ≤
      n * (count step (fun s s' => rank s' < rank s) s rs + 1) := by
  induction rs generalizing s with
  | nil =>
    have := hrank s hs
    simp only [count]
    omega
  | cons r rs ih =>
    have hrest := ih (hinv s r hs)
    have hbound := hrank s hs
    rw [count, count]
    rcases lt_trichotomy (rank s) (rank (step s r)) with hup | hsame | hdown
    · rw [if_pos hup, if_neg hup.not_gt, Nat.zero_add]
      omega
    · rw [if_neg hsame.not_lt, if_neg hsame.not_gt, Nat.zero_add, Nat.zero_add]
      omega
    · -- the way down pays for as many steps up
      rw [if_neg hdown.not_gt, if_pos hdown, Nat.zero_add, Nat.add_assoc 1, Nat.mul_add,
        Nat.mul_one]
      omega

end Count

/-! ## Triggers -/

/-- A machine that holds a level or none. `reading` is the value it reads, if it gets any. The
states that it comes through satisfy `inv`, and `drop` relates two of them if a level is given up
from the one to the other. -/
structure Machine {σ ρ α : Type*} [AddCommGroup α] [LinearOrder α] (step : σ → ρ → σ)
    (reading : ρ → Option α) (level : σ → Option α) (drop : σ → σ → Prop) (inv : σ → Prop) (d : α) :
    Prop where
  /-- the invariant is kept -/
  inv_step : ∀ s r, inv s → inv (step s r)
  /-- without a value nothing happens -/
  silent : ∀ s r, reading r = none → level (step s r) = level s ∧ ¬ drop s (step s r)
  /-- a level that is new is below the value -/
  below : ∀ s r t, inv s → reading r = some t →
    level (step s r) = level s ∨ ∀ l ∈ level (step s r), l < t
  /-- the level is given up for one below the value, and all that was above it is `d` higher -/
  drops : ∀ s r t, inv s → reading r = some t → drop s (step s r) →
    (∀ l ∈ level (step s r), l < t) ∧ ∃ l ∈ level s, ∀ p, l < p → t + d ≤ p

section Machine

variable {σ ρ α : Type*} [AddCommGroup α] [LinearOrder α] {step : σ → ρ → σ}
  {reading : ρ → Option α} {level : σ → Option α} {drop : σ → σ → Prop} [DecidableRel drop]
  {inv : σ → Prop} {d : α}

/-- **Hysteresis.** From a state whose level is below the peak, a level is given up no more often
than the values fall. A fall may leave the machine holding a level that is above the new peak; that
level can still be given up, and then the fall pays for it. -/
theorem Machine.count_le_falls (h : Machine step reading level drop inv d) {s : σ} (hs : inv s)
    {peak : α} (hlevel : ∀ l ∈ level s, l < peak) (rs : List ρ) :
    count step drop s rs ≤ falls d peak (rs.filterMap reading) := by
  -- without knowing the level one drop more is possible, and the induction needs both bounds
  have hboth : ∀ (rs : List ρ) (s : σ) (peak : α), inv s →
      count step drop s rs ≤ falls d peak (rs.filterMap reading) + 1 ∧
        ((∀ l ∈ level s, l < peak) →
          count step drop s rs ≤ falls d peak (rs.filterMap reading)) := by
    intro rs
    induction rs with
    | nil => exact fun s peak _ => ⟨Nat.zero_le _, fun _ => Nat.zero_le _⟩
    | cons r rs ih =>
      intro s peak hs
      have hs' := h.inv_step s r hs
      rw [count]
      rcases hreading : reading r with _ | t
      · obtain ⟨hsame, hkeep⟩ := h.silent s r hreading
        rw [if_neg hkeep, Nat.zero_add, List.filterMap_cons_none hreading, ← hsame]
        exact ih (step s r) peak hs'
      rw [List.filterMap_cons_some hreading, falls]
      by_cases hdrop : drop s (step s r)
      · obtain ⟨hnew, l, hl, hfar⟩ := h.drops s r t hs hreading hdrop
        rw [if_pos hdrop]
        by_cases hfall : t + d ≤ peak
        -- a fall pays for this drop, and behind it the level is below the new peak
        · have hrest := (ih (step s r) t hs').2 hnew
          rw [if_pos hfall]
          exact ⟨by omega, fun _ => by omega⟩
        · have hrest := (ih (step s r) (max peak t) hs').2 fun l' hl' =>
            lt_max_of_lt_right (hnew l' hl')
          rw [if_neg hfall]
          exact ⟨by omega, fun hlevel => absurd (hfar peak (hlevel l hl)) hfall⟩
      · rw [if_neg hdrop, Nat.zero_add]
        by_cases hfall : t + d ≤ peak
        · have hrest := (ih (step s r) t hs').1
          rw [if_pos hfall]
          exact ⟨by omega, fun _ => hrest⟩
        · rw [if_neg hfall]
          refine ⟨(ih (step s r) (max peak t) hs').1, fun hlevel => ?_⟩
          refine (ih (step s r) (max peak t) hs').2 ?_
          rcases h.below s r t hs hreading with hsame | hnew
          · rw [hsame]
            exact fun l hl => lt_max_of_lt_left (hlevel l hl)
          · exact fun l hl => lt_max_of_lt_right (hnew l hl)
  exact (hboth rs s peak hs).2 hlevel

end Machine

end Trigger
