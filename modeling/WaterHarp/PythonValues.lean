import Mathlib

/-! The exceptions and the numeric library calls of the Python programs, with
their floating-point numbers taken as exact rationals. -/
namespace WaterHarp.PythonValues

inductive PyError
  | indexError
  | valueError
  | zeroDivisionError
  | osError
  deriving DecidableEq, Repr

/-- `np.linspace(start, stop, num)`. -/
def linspace (start stop : ℚ) (num : ℕ) : List ℚ :=
  (List.range num).map fun k => start+k*((stop-start)/(num-1))

/-- `np.mean` of a list which is not empty. -/
def mean (xs : List ℚ) : ℚ := xs.sum/xs.length

end WaterHarp.PythonValues
