import AmdgpuFand.Lib.Memory
import Mathlib.Data.Nat.Notation

/-!
# Computations that read memory

A computation on an object that keeps the indices of the bytes it has read, and is undefined once
it reads outside of the object. `Returns x P a` says at once that `x` is defined, that its result is
`a`, and that nothing but the bytes in `P` has been read on the way. The rules follow the
computation: one for its end, one for two computations in sequence, and one for each kind of read.
-/

abbrev Reads (α : Type) : Type := StateT (List ℕ) Option α

namespace Reads

variable {α β : Type} {x : Reads α} {f : α → Reads β} {P Q : ℕ → Prop} {a : α} {b : β}

/-- The byte at `pos` -/
def byte (mem : List UInt8) (pos : ℕ) : Reads UInt8 :=
  fun trace => mem[pos]?.map fun c => (c, trace ++ [pos])

/-- The `n` bytes at `pos` -/
def bytes (mem : List UInt8) (pos n : ℕ) : Reads (List UInt8) :=
  fun trace => (Memory.load mem pos n).map fun loaded => (loaded, trace ++ List.range' pos n)

/-- The result is `a`, and only bytes in `P` are read. -/
def Returns (x : Reads α) (P : ℕ → Prop) (a : α) : Prop :=
  ∀ trace, ∃ more, x.run trace = some (a, trace ++ more) ∧ ∀ i ∈ more, P i

namespace Returns

protected theorem pure (P : ℕ → Prop) (a : α) : Returns (pure a) P a := by
  intro trace
  refine ⟨[], ?_, fun i hi => absurd hi List.not_mem_nil⟩
  rw [List.append_nil]
  rfl

protected theorem bind (hx : Returns x P a) (hf : Returns (f a) P b) : Returns (x >>= f) P b := by
  intro trace
  obtain ⟨more, hrun, hmore⟩ := hx trace
  obtain ⟨more', hrun', hmore'⟩ := hf (trace ++ more)
  refine ⟨more ++ more', ?_, ?_⟩
  · rw [StateT.run_bind, hrun, ← List.append_assoc]
    exact hrun'
  · intro i hi
    rcases List.mem_append.mp hi with hi | hi
    · exact hmore i hi
    · exact hmore' i hi

theorem mono (h : Returns x P a) (hPQ : ∀ i, P i → Q i) : Returns x Q a := by
  intro trace
  obtain ⟨more, hrun, hmore⟩ := h trace
  exact ⟨more, hrun, fun i hi => hPQ i (hmore i hi)⟩

/-- A byte behind `front` -/
theorem byte (front : List UInt8) (c : UInt8) (rest : List UInt8) :
    Returns (Reads.byte (front ++ c :: rest) front.length) (· = front.length) c := by
  intro trace
  refine ⟨[front.length], ?_, fun i hi => List.mem_singleton.mp hi⟩
  have hget : (front ++ c :: rest)[front.length]? = some c := by
    rw [List.getElem?_append_right (Nat.le_refl _), Nat.sub_self, List.getElem?_cons_zero]
  change (front ++ c :: rest)[front.length]?.map _ = _
  rw [hget]
  rfl

/-- Bytes inside of the object -/
theorem bytes {mem : List UInt8} {pos n : ℕ} (h : pos + n ≤ mem.length) :
    Returns (Reads.bytes mem pos n) (fun i => pos ≤ i ∧ i < pos + n) ((mem.drop pos).take n) := by
  intro trace
  refine ⟨List.range' pos n, ?_, fun i hi => List.mem_range'_1.mp hi⟩
  change (Memory.load mem pos n).map _ = _
  rw [Memory.load, if_pos h]
  rfl

end Returns

end Reads
