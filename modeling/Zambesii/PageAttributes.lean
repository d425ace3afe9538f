import Mathlib.Data.Nat.Bitwise
import Zambesii.KernelTypes

/-!
The kernel's page attributes and their encoding in the low twelve bits of a page table
entry (`wPRanger_convertFlags.cpp`).
-/

namespace Zambesii.PageAttributes

open KernelTypes Nat

def pageAttribWrite : Nat := 1 <<< 1

def pageAttribSupervisor : Nat := 1 <<< 2

def pageAttribPresent : Nat := 1 <<< 4

def pageAttribTlbGlobal : Nat := 1 <<< 7

def pageAttribCacheDisabled : Nat := 1 <<< 8

def pageAttribCacheWriteThrough : Nat := 1 <<< 9

def pagingPresent : Nat := 1 <<< 0

def pagingWrite : Nat := 1 <<< 1

def pagingUser : Nat := 1 <<< 2

def pagingCacheWriteThrough : Nat := 1 <<< 3

def pagingCacheDisabled : Nat := 1 <<< 4

def pagingTlbGlobal : Nat := 1 <<< 8

def flagTest (flags flag : Nat) : Bool :=
  decide (flags &&& flag ≠ 0)

/-- `ret |= flag`, when the test before it holds. -/
def setWhen (test : Bool) (flag ret : Nat) : Nat :=
  if test then ret ||| flag else ret

def encodeFlags (flags : Nat) : Nat :=
  let ret := setWhen (flagTest flags pageAttribWrite) pagingWrite 0
  let ret := setWhen (!flagTest flags pageAttribSupervisor) pagingUser ret
  let ret := setWhen (flagTest flags pageAttribPresent) pagingPresent ret
  let ret := setWhen (flagTest flags pageAttribTlbGlobal) pagingTlbGlobal ret
  let ret := setWhen (flagTest flags pageAttribCacheWriteThrough) pagingCacheWriteThrough ret
  setWhen (flagTest flags pageAttribCacheDisabled) pagingCacheDisabled ret

def decodeFlags (flags : Nat) : Nat :=
  let ret := setWhen (flagTest flags pagingWrite) pageAttribWrite 0
  let ret := setWhen (!flagTest flags pagingUser) pageAttribSupervisor ret
  let ret := setWhen (flagTest flags pagingPresent) pageAttribPresent ret
  let ret := setWhen (flagTest flags pagingTlbGlobal) pageAttribTlbGlobal ret
  let ret := setWhen (flagTest flags pagingCacheWriteThrough) pageAttribCacheWriteThrough ret
  setWhen (flagTest flags pagingCacheDisabled) pageAttribCacheDisabled ret

def encodedAttribs : Nat :=
  pageAttribWrite ||| pageAttribSupervisor ||| pageAttribPresent ||| pageAttribTlbGlobal |||
    pageAttribCacheDisabled ||| pageAttribCacheWriteThrough

theorem flagTest_shiftLeft (flags i : Nat) : flagTest flags (1 <<< i) = flags.testBit i := by
  unfold flagTest
  rw [one_shiftLeft, and_two_pow]
  cases flags.testBit i with
  | true => simp
  | false => simp

theorem testBit_setWhen (test : Bool) (k ret i : Nat) :
    (setWhen test (1 <<< k) ret).testBit i = (ret.testBit i || (test && decide (k = i))) := by
  unfold setWhen
  cases test with
  | true => simp [testBit_or, one_shiftLeft, testBit_two_pow]
  | false => simp

theorem testBit_encodeFlags (flags i : Nat) :
    (encodeFlags flags).testBit i =
      ((flags.testBit 1 && decide (1 = i)) || (!flags.testBit 2 && decide (2 = i)) ||
        (flags.testBit 4 && decide (0 = i)) || (flags.testBit 7 && decide (8 = i)) ||
        (flags.testBit 9 && decide (3 = i)) || (flags.testBit 8 && decide (4 = i))) := by
  simp only [encodeFlags, pagingWrite, pagingUser, pagingPresent, pagingTlbGlobal,
    pagingCacheWriteThrough, pagingCacheDisabled, pageAttribWrite, pageAttribSupervisor,
    pageAttribPresent, pageAttribTlbGlobal, pageAttribCacheWriteThrough,
    pageAttribCacheDisabled, testBit_setWhen, flagTest_shiftLeft, zero_testBit, Bool.false_or]

theorem testBit_decodeFlags (flags i : Nat) :
    (decodeFlags flags).testBit i =
      ((flags.testBit 1 && decide (1 = i)) || (!flags.testBit 2 && decide (2 = i)) ||
        (flags.testBit 0 && decide (4 = i)) || (flags.testBit 8 && decide (7 = i)) ||
        (flags.testBit 3 && decide (9 = i)) || (flags.testBit 4 && decide (8 = i))) := by
  simp only [decodeFlags, pagingWrite, pagingUser, pagingPresent, pagingTlbGlobal,
    pagingCacheWriteThrough, pagingCacheDisabled, pageAttribWrite, pageAttribSupervisor,
    pageAttribPresent, pageAttribTlbGlobal, pageAttribCacheWriteThrough,
    pageAttribCacheDisabled, testBit_setWhen, flagTest_shiftLeft, zero_testBit, Bool.false_or]

theorem testBit_encodedAttribs (i : Nat) :
    encodedAttribs.testBit i =
      (decide (1 = i) || decide (2 = i) || decide (4 = i) || decide (7 = i) ||
        decide (8 = i) || decide (9 = i)) := by
  simp only [encodedAttribs, pageAttribWrite, pageAttribSupervisor, pageAttribPresent,
    pageAttribTlbGlobal, pageAttribCacheWriteThrough, pageAttribCacheDisabled,
    testBit_or, one_shiftLeft, testBit_two_pow]

theorem encodeFlags_lt (flags : Nat) : encodeFlags flags < pagingBaseSize := by
  apply lt_pow_two_of_testBit (n := 12)
  intro i hi
  rw [testBit_encodeFlags]
  have hne : 0 ≠ i ∧ 1 ≠ i ∧ 2 ≠ i ∧ 3 ≠ i ∧ 4 ≠ i ∧ 8 ≠ i := by omega
  simp [hne]

theorem decodeFlags_encodeFlags (flags : Nat) :
    decodeFlags (encodeFlags flags) = flags &&& encodedAttribs := by
  apply eq_of_testBit_eq
  intro i
  rw [testBit_decodeFlags, testBit_and, testBit_encodedAttribs]
  simp only [testBit_encodeFlags]
  rcases em (i = 1 ∨ i = 2 ∨ i = 4 ∨ i = 7 ∨ i = 8 ∨ i = 9) with hi | hi
  · rcases hi with rfl | rfl | rfl | rfl | rfl | rfl <;> simp
  · have hne : 1 ≠ i ∧ 2 ≠ i ∧ 4 ≠ i ∧ 7 ≠ i ∧ 8 ≠ i ∧ 9 ≠ i := by omega
    simp [hne]

theorem flagTest_decodeFlags_present (flags : Nat) :
    flagTest (decodeFlags flags) pageAttribPresent = flagTest flags pagingPresent := by
  simp only [pageAttribPresent, pagingPresent, flagTest_shiftLeft, testBit_decodeFlags]
  simp

end Zambesii.PageAttributes
