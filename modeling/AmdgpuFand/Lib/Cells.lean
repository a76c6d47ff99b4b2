import Mathlib.Data.List.Basic
import Mathlib.Data.Nat.Notation

/-!
# Objects whose stores are recorded

An object is a list of cells. A store outside of it is `none`; a store inside is recorded with its
index. `Tracks` is the frame condition that every run of stores keeps: only the recorded cells can
differ from what was there before.
-/

universe u

structure Cells (α : Type u) where
  contents : List α
  /-- the indices that have been stored to, in this order -/
  written : List ℕ
  deriving DecidableEq, Repr

namespace Cells

variable {α : Type u}

/-- An object that nothing has been stored to -/
def fresh (contents : List α) : Cells α := ⟨contents, []⟩

def store (m : Cells α) (i : ℕ) (a : α) : Option (Cells α) :=
  if i < m.contents.length then some ⟨m.contents.set i a, m.written ++ [i]⟩ else none

/-- Storing to the first cell behind `front`. -/
theorem store_append (front : List α) (b : α) (rest : List α) (w : List ℕ) (a : α) :
    store ⟨front ++ b :: rest, w⟩ front.length a =
      some ⟨front ++ a :: rest, w ++ [front.length]⟩ := by
  have hlt : front.length < (front ++ b :: rest).length := by
    rw [List.length_append, List.length_cons]
    omega
  have hset : (front ++ b :: rest).set front.length a = front ++ a :: rest := by
    rw [List.set_append_right _ _ (Nat.le_refl _), Nat.sub_self, List.set_cons_zero]
  rw [store, if_pos hlt, hset]

/-- Only the recorded cells differ from `start`. -/
structure Tracks (start : List α) (m : Cells α) : Prop where
  length : m.contents.length = start.length
  kept : ∀ i, i ∉ m.written → m.contents[i]? = start[i]?

variable {start : List α} {m m' : Cells α}

theorem tracks_fresh (start : List α) : Tracks start (fresh start) := ⟨rfl, fun _ _ => rfl⟩

theorem Tracks.store (h : Tracks start m) {i : ℕ} {a : α} (hstore : m.store i a = some m') :
    Tracks start m' := by
  rw [Cells.store] at hstore
  split_ifs at hstore with hi
  cases hstore
  refine ⟨(List.length_set ..).trans h.length, fun j hj => ?_⟩
  rw [List.mem_append, not_or, List.mem_singleton] at hj
  rw [List.getElem?_set_ne (Ne.symm hj.2)]
  exact h.kept j hj.1

/-- Nothing changes behind the last store. -/
theorem Tracks.drop (h : Tracks start m) {n : ℕ} (hn : ∀ i ∈ m.written, i < n) :
    m.contents.drop n = start.drop n := by
  refine List.ext_getElem? fun i => ?_
  rw [List.getElem?_drop, List.getElem?_drop]
  exact h.kept (n + i) fun hmem => absurd (hn _ hmem) (by omega)

end Cells
