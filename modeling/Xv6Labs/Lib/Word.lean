import Mathlib.Logic.Basic

/-!
# Machine words in memory

A 64-bit memory by bytes, and the word stored at an address.
-/

namespace Xv6Labs.Lib

abbrev Memory := BitVec 64 → BitVec 8

/-- The 64-bit word at `a`, little-endian. -/
def Memory.word (mem : Memory) (a : BitVec 64) : BitVec 64 :=
  mem (a + 7) ++ mem (a + 6) ++ mem (a + 5) ++ mem (a + 4) ++
    mem (a + 3) ++ mem (a + 2) ++ mem (a + 1) ++ mem a

end Xv6Labs.Lib
