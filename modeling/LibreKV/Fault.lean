import LibreKV.Lib.Fallible

/-!
# LibreKV.Fault

The ways in which a call of the modelled C functions does not return. Where C leaves the
behaviour undefined, the model stops with the fault that says why. `malloc` and `realloc` are
taken to succeed.
-/

namespace LibreKV

/-- Why a call does not return. -/
inductive Fault
  /-- An `assert` fails and the process is aborted. -/
  | assertionFailed
  /-- `%` with a zero on the right. -/
  | divisionByZero
  /-- A null, freed or made-up pointer is dereferenced. -/
  | badPointer
  /-- An array subscript beyond the array. -/
  | outOfBounds
  /-- A subscript of the linear hash table beyond its allocated buckets. -/
  | unallocatedBucket
  /-- Memory that was allocated but never initialised is used as a bucket. -/
  | indeterminateBucket
  /-- An `int` loop counter runs past `INT_MAX`. -/
  | intOverflow
  /-- `va_arg` with no argument left, or with one of another type. -/
  | badArgument
  deriving Repr, DecidableEq

end LibreKV
