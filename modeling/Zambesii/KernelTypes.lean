import Mathlib.Algebra.Order.Ring.Nat

/-!
The error codes and the machine constants shared by the modelled kernel classes
(32-bit build without the physical address extension).
-/

namespace Zambesii.KernelTypes

/-- The codes of `__kerror.h` that the modelled functions return, and the two statuses that
`spawnDriver` and `spawnThread` return in their place. -/
inductive Kerror
  | success
  | general
  | unknown
  | fatal
  | duplicate
  | invalidArg
  | invalidArgVal
  | invalidOperation
  | invalidState
  | invalidResourceName
  | invalidResourceHandle
  | invalidResourceId
  | memoryNomem
  | memoryNomemPhysical
  | unimplemented
  | uninitialized
  | resourceBusy
  | wouldBlock
  | notFound
  | limitOverflowed
  | unsupported
  | critical
  | nonConformant
  | invalidFormat
  | unauthorized
  | initializationFailure
  | resourceUnavailable
  | resourceExhausted
  | spawnDriverNoDriver
  | spawnThreadNoPids
deriving DecidableEq

/-- `uarch_t`, `uintptr_t` and `size_t` have 32 bits; their arithmetic is taken
modulo this value. -/
def wordModulus : Nat := 2 ^ 32

theorem wordModulus_pos : 0 < wordModulus := by decide

def pagingBaseSize : Nat := 4096

def pagingBaseShift : Nat := 12

theorem some_bind {α β : Type} (a : α) (f : α → Option β) : (some a >>= f) = f a :=
  rfl

end Zambesii.KernelTypes
