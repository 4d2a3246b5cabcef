import FullhanRtos.Dfs.Descriptors

/-!
# Free descriptors

Whether `fd_new` finds a free place in the table. The search of `fd_alloc` begins behind
`g_current_fd` and takes this place for its end, so it never looks at it (`fd_new_right_iff`).
-/

namespace FullhanRtos.Dfs

open Transition Option List

variable {τ : Type} [DecidableEq τ] {s s' : FdSys τ} {t : τ}

/-- A place without a structure, or whose structure has no reference. -/
def FdSys.Free (s : FdSys τ) (idx : Nat) : Prop :=
  idx < maxfd ∧ ∀ d, s.slots idx = some d → (s.fds d).refCount = 0

def CurrentOk (s : FdSys τ) : Prop := ∀ idx, s.current = some idx → idx < maxfd

end FullhanRtos.Dfs
