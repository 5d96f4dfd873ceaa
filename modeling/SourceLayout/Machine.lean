/-!
# Machines

What a run is given to work with. Memory bounds the texts that can be held, and the stack bounds how
deep lists and tables may be nested in a value that is read or written. Whatever meets one of these
bounds takes it from the machine at hand, so what is shown of it is shown for every machine. Room is
asked for the indentation and for what is written with it; what a pass takes for itself is left out.
-/

namespace SourceLayout

class Machine where
  /-- The length of the longest text that can be held. -/
  memory : Nat
  writtenDepth : Nat
  jsonDepth : Nat
  tomlDepth : Nat
  /-- A value is read from further down the stack than it is written from. -/
  jsonDepth_le : jsonDepth ≤ writtenDepth

/-- The machine that a program runs on unless it is told another one. Its depths are what a thousand
frames leave. Nothing that is shown of all runs depends on its numbers. -/
instance Machine.usual : Machine where
  memory := 0x1000000000
  writtenDepth := 992
  jsonDepth := 989
  tomlDepth := 986
  jsonDepth_le := by decide

end SourceLayout
