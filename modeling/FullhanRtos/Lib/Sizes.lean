import Mathlib.Data.BitVec

/-!
# Sizes

The numerals of `Fin` need a size that is not 0. The sizes in use have named instances.
-/

namespace Sizes

instance two : NeZero 2 := ⟨by decide⟩

instance three : NeZero 3 := ⟨by decide⟩

instance four : NeZero 4 := ⟨by decide⟩

instance thirtyTwo : NeZero 32 := ⟨by decide⟩

instance twoHundredFiftySix : NeZero 256 := ⟨by decide⟩

end Sizes
