/-!
Constants of `common.h` that every page configuration shares.
-/

set_option autoImplicit false
set_option relaxedAutoImplicit false

namespace TCMalloc

/-- `kMaxObjectsToMove` of `common.h`. -/
def kMaxObjectsToMove : Nat := 128

/-- `kAlignment`: every object is aligned to 8 bytes. -/
def kAlignment : Nat := 8

/-- `kAlignmentShift`, `log2(kAlignment)`. -/
def kAlignmentShift : Nat := 3

end TCMalloc
