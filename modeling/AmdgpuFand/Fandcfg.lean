import Mathlib.Data.Int.Notation
import Mathlib.Data.Nat.Notation
import Mathlib.Tactic.SplitIfs

/-!
# Constants and the configuration record

The shared headers of daemon and control interface (`fandcfg.h`, `config.h`): the
limits every module agrees on, and `struct fand_config`, the record that the
parser fills and the fan controller and the server read.

C arrays are `Vector`s, so their size is part of their type. A read is `idx`; the
entry outside the array, which C leaves undefined, is given the value `0`.
-/

namespace AmdgpuFand

/-- `MAX_TEMP_THRESHOLDS`: the documented number of matrix rows. -/
abbrev maxTempThresholds : ℕ := 16

/-- `MATRIX_MAX_SIZE`: a temperature and a speed for each row. -/
abbrev matrixMaxSize : ℕ := 2 * maxTempThresholds

/-- `FAND_FATAL_ERR`: the status that ends the daemon's main loop. -/
def fandFatalErr : ℤ := -0x20

/-- `PWM_MIN` -/
def pwmMin : UInt64 := 0

/-- `PWM_MAX` -/
def pwmMax : UInt64 := 255

/-- Reading a C array of `unsigned char`. -/
def idx {n : ℕ} (v : Vector UInt8 n) (i : ℕ) : UInt8 := v[i]?.getD 0

theorem idx_set {n : ℕ} (v : Vector UInt8 n) (i j : ℕ) (x : UInt8) :
    idx (v.setIfInBounds i x) j = if i = j ∧ i < n then x else idx v j := by
  unfold idx
  rw [Vector.getElem?_setIfInBounds]
  by_cases hij : i = j
  · subst hij
    by_cases hi : i < n
    · simp [hi]
    · simp [hi]
  · simp [hij]

/-- `struct fand_config` -/
structure FandConfig where
  /-- turn the fans off below the first threshold -/
  throttle : Bool
  /-- number of rows in use -/
  matrixRows : UInt8
  /-- degrees a threshold has to be undercut before it is released -/
  hysteresis : UInt8
  /-- seconds between two adjustments -/
  interval : UInt16
  /-- temperature and speed of each row, alternating -/
  matrix : Vector UInt8 matrixMaxSize
  deriving DecidableEq, Repr

namespace FandConfig

/-- `struct fand_config data = { 0 }` -/
def zero : FandConfig := ⟨false, 0, 0, 0, Vector.replicate matrixMaxSize 0⟩

/-- Temperature of row `i`. -/
def temp (c : FandConfig) (i : ℕ) : ℕ := (idx c.matrix (2 * i)).toNat

/-- Speed of row `i`. -/
def speed (c : FandConfig) (i : ℕ) : ℕ := (idx c.matrix (2 * i + 1)).toNat

/-- Number of rows. -/
def rows (c : FandConfig) : ℕ := c.matrixRows.toNat

end FandConfig

end AmdgpuFand
