/-!
# Powers of natural numbers

A power of a natural number is the one of the core library, also where a library with powers in
every monoid is imported: what a definition means does not depend on what stands beside it.
-/

namespace MotionMidi

@[default_instance 20000]
instance (priority := 20000) natPow : Pow Nat Nat :=
  instPowNat

end MotionMidi
