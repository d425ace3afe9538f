import Mathlib.Data.List.Basic
import Zambesii.KernelTypes

/-!
The buffers of the driver index, and what is read out of them at offsets which come from the index.
-/

namespace Zambesii.IndexBuffer

open KernelTypes List

inductive Source where
  | kernel
  | ramdisk
  | external
  deriving DecidableEq

structure RandomAccessBuffer where
  source : Source
  buffer : Nat
  bytes : List UInt8
  bufferEof_lt : buffer + bytes.length < wordModulus

def RandomAccessBuffer.bufferSize (rab : RandomAccessBuffer) : Nat :=
  rab.bytes.length

def RandomAccessBuffer.bufferEof (rab : RandomAccessBuffer) : Nat :=
  rab.buffer + rab.bufferSize

def RandomAccessBuffer.memory (rab : RandomAccessBuffer) (other : Nat → Option UInt8)
    (address : Nat) : Option UInt8 :=
  if rab.buffer ≤ address ∧ address < rab.bufferEof then rab.bytes[address - rab.buffer]?
  else other address

/-- The loop of `memcpy`. A byte which is not mapped is a fault. -/
def copyBytes (memory : Nat → Option UInt8) (src : Nat) : (count : Nat) → Option (List UInt8)
  | 0 => some []
  | count + 1 => do
      let byte ← memory (src % wordModulus)
      let bytes ← copyBytes memory (src + 1) count
      some (byte :: bytes)

/-- `memcpy` from an address. It panics on `NULL`. -/
def memcpy (memory : Nat → Option UInt8) (src count : Nat) : Option (List UInt8) :=
  if src % wordModulus = 0 then none else copyBytes memory src count

/-- `RandomAccessBuffer::read`: the error, and the bytes which are copied. -/
def read (rab : RandomAccessBuffer) (other : Nat → Option UInt8) (offset nBytes : UInt32) :
    Option (Kerror × List UInt8) :=
  if nBytes.toNat ≤ 0 then some (.success, [])
  else if rab.source = .kernel then
    if rab.bufferEof ≤
        (rab.buffer + (offset.toNat + nBytes.toNat - 1) % wordModulus) % wordModulus then
      some (.limitOverflowed, [])
    else do
      let bytes ← memcpy (rab.memory other) (rab.buffer + offset.toNat) nBytes.toNat
      some (.success, bytes)
  else some (.unimplemented, [])

/-- The addresses from which the loop of `strcpy8` reads in at most so many rounds. -/
def strcpyLoop (memory : Nat → Option UInt8) (src : Nat) : (rounds : Nat) → List Nat
  | 0 => []
  | rounds + 1 =>
    src % wordModulus ::
      match memory (src % wordModulus) with
      | none => []
      | some byte => if byte = 0 then [] else strcpyLoop memory (src + 1) rounds

/-- The addresses from which `strcpy8` reads. It panics on `NULL`. -/
def strcpy8 (memory : Nat → Option UInt8) (src rounds : Nat) : List Nat :=
  if src % wordModulus = 0 then [] else strcpyLoop memory src rounds

/-- `RandomAccessBuffer::readString`: the addresses it reads from. -/
def readString (rab : RandomAccessBuffer) (other : Nat → Option UInt8) (offset : UInt32)
    (rounds : Nat) : List Nat :=
  if rab.source = .kernel then
    strcpy8 (rab.memory other) (rab.buffer + offset.toNat) rounds
  else []

section

variable (rab : RandomAccessBuffer) (other : Nat → Option UInt8) (offset nBytes : UInt32)

/-- A read within the buffer is successful and copies the bytes there; any other is an error. -/
def ReadsExactly : Prop :=
  if offset.toNat + nBytes.toNat ≤ rab.bufferSize then
    read rab other offset nBytes =
      some (.success, (rab.bytes.drop offset.toNat).take nBytes.toNat)
  else ∃ error, error ≠ .success ∧ read rab other offset nBytes = some (error, [])

def StaysInside : Prop :=
  ∀ rounds, ∀ address ∈ readString rab other offset rounds,
    rab.buffer ≤ address ∧ address < rab.bufferEof

def Unwrapped : Prop :=
  if nBytes.toNat = 0 then offset.toNat ≤ rab.bufferSize
  else if rab.source = .kernel then
    0 < rab.buffer + offset.toNat ∧ rab.buffer + offset.toNat + nBytes.toNat ≤ wordModulus ∨
      rab.bufferEof ≤ (rab.buffer + offset.toNat + nBytes.toNat - 1) % wordModulus
  else rab.bufferSize < offset.toNat + nBytes.toNat

def Terminated : Prop :=
  rab.source = .kernel → (rab.buffer + offset.toNat) % wordModulus ≠ 0 →
    0 ∈ rab.bytes.drop offset.toNat

variable {rab other offset nBytes}

theorem memory_inside {i : Nat} (h : i < rab.bufferSize) :
    rab.memory other ((rab.buffer + i) % wordModulus) = rab.bytes[i]? := by
  have hlt := rab.bufferEof_lt
  simp only [RandomAccessBuffer.bufferSize] at h
  rw [Nat.mod_eq_of_lt (by omega), RandomAccessBuffer.memory,
    if_pos (by simp [RandomAccessBuffer.bufferEof, RandomAccessBuffer.bufferSize]; omega),
    Nat.add_sub_cancel_left]

theorem copyBytes_inside {i count : Nat} (h : i + count ≤ rab.bufferSize) :
    copyBytes (rab.memory other) (rab.buffer + i) count = some ((rab.bytes.drop i).take count) := by
  induction count generalizing i with
  | zero => rfl
  | succ count ih =>
    have hi : i < rab.bytes.length := by
      simp only [RandomAccessBuffer.bufferSize] at h
      omega
    have hrest := @ih (i + 1) (by omega)
    rw [copyBytes, memory_inside (by omega), getElem?_eq_getElem hi, add_assoc, hrest,
      drop_eq_getElem_cons hi]
    rfl

theorem read_kernel (hpos : 0 < nBytes.toNat) (hsource : rab.source = .kernel) :
    read rab other offset nBytes =
      if rab.bufferEof ≤ (rab.buffer + offset.toNat + nBytes.toNat - 1) % wordModulus then
        some (.limitOverflowed, [])
      else (memcpy (rab.memory other) (rab.buffer + offset.toNat) nBytes.toNat).bind fun bytes =>
        some (.success, bytes) := by
  have hlast : rab.buffer + (offset.toNat + nBytes.toNat - 1) =
      rab.buffer + offset.toNat + nBytes.toNat - 1 := by omega
  rw [read, if_neg (by omega), if_pos hsource, Nat.add_mod_mod, hlast]
  rfl

theorem read_kernel_iff (hpos : 0 < nBytes.toNat) (hsource : rab.source = .kernel) :
    ReadsExactly rab other offset nBytes ↔ Unwrapped rab offset nBytes := by
  have hlt : rab.bufferEof < wordModulus := rab.bufferEof_lt
  have heof : rab.bufferEof = rab.buffer + rab.bufferSize := rfl
  rw [ReadsExactly, Unwrapped, if_neg hpos.ne', if_pos hsource, read_kernel hpos hsource]
  rcases lt_or_ge rab.bufferSize (offset.toNat + nBytes.toNat) with hover | hinside
  · rw [if_neg (not_le.mpr hover)]
    constructor
    · rintro ⟨error, hne, hread⟩
      refine .inr (not_lt.mp fun hwrapped => ?_)
      rw [if_neg (not_le.mpr hwrapped)] at hread
      obtain ⟨bytes, _, hbytes⟩ := Option.bind_eq_some_iff.mp hread
      cases hbytes
      exact hne rfl
    · intro hunwrapped
      have hrejected : rab.bufferEof ≤
          (rab.buffer + offset.toNat + nBytes.toNat - 1) % wordModulus := by
        rcases hunwrapped with ⟨-, hle⟩ | hwrapped
        · rw [Nat.mod_eq_of_lt (by omega)]
          omega
        · exact hwrapped
      exact ⟨.limitOverflowed, nofun, if_pos hrejected⟩
  · rw [if_pos hinside, Nat.mod_eq_of_lt (by omega), if_neg (by omega), memcpy,
      Nat.mod_eq_of_lt (by omega), copyBytes_inside hinside]
    rcases eq_zero_or_pos (rab.buffer + offset.toNat) with hnull | hsrc
    · -- `memcpy` panics
      rw [if_pos hnull]
      exact iff_of_false nofun (by omega)
    · rw [if_neg hsrc.ne']
      exact ⟨fun _ => .inl (by omega), fun _ => rfl⟩

theorem readsExactly_iff_unwrapped :
    ReadsExactly rab other offset nBytes ↔ Unwrapped rab offset nBytes := by
  rcases eq_zero_or_pos nBytes.toNat with hzero | hpos
  · simp [ReadsExactly, Unwrapped, read, hzero]
  cases hsource : rab.source with
  | kernel => exact read_kernel_iff hpos hsource
  | ramdisk | external =>
    simp [ReadsExactly, Unwrapped, read, hsource, hpos.ne']

theorem mem_strcpyLoop {i : Nat} (h : i ≤ rab.bufferSize) (hzero : 0 ∉ rab.bytes.drop i) :
    rab.bufferEof ∈ strcpyLoop (rab.memory other) (rab.buffer + i) (rab.bufferSize - i + 1) := by
  have hlt : rab.bufferEof < wordModulus := rab.bufferEof_lt
  have heof : rab.bufferEof = rab.buffer + rab.bufferSize := rfl
  induction hleft : rab.bufferSize - i generalizing i with
  | zero =>
    rw [strcpyLoop, Nat.mod_eq_of_lt (by omega), show rab.buffer + i = rab.bufferEof by omega]
    exact mem_cons_self
  | succ left ih =>
    have hi : i < rab.bytes.length := by
      simp only [RandomAccessBuffer.bufferSize] at hleft
      omega
    rw [drop_eq_getElem_cons hi] at hzero
    obtain ⟨hbyte, hrest⟩ := not_or.mp fun hmem => hzero (mem_cons.mpr hmem)
    rw [strcpyLoop, memory_inside (by omega), getElem?_eq_getElem hi]
    dsimp only
    rw [if_neg fun h => hbyte h.symm]
    exact mem_cons_of_mem _ (ih (by omega) hrest (by omega))

theorem strcpyLoop_inside {i rounds address : Nat} (hzero : 0 ∈ rab.bytes.drop i)
    (hmem : address ∈ strcpyLoop (rab.memory other) (rab.buffer + i) rounds) :
    rab.buffer ≤ address ∧ address < rab.bufferEof := by
  have hlt : rab.bufferEof < wordModulus := rab.bufferEof_lt
  have heof : rab.bufferEof = rab.buffer + rab.bufferSize := rfl
  induction rounds generalizing i with
  | zero => cases hmem
  | succ rounds ih =>
    have hi : i < rab.bytes.length := by
      have hne := ne_nil_of_mem hzero
      rw [ne_eq, drop_eq_nil_iff] at hne
      omega
    have hsize : i < rab.bufferSize := hi
    rw [drop_eq_getElem_cons hi] at hzero
    rw [strcpyLoop, memory_inside hsize, getElem?_eq_getElem hi,
      Nat.mod_eq_of_lt (by omega)] at hmem
    rcases mem_cons.mp hmem with rfl | hrest
    · omega
    dsimp only at hrest
    split at hrest
    · cases hrest
    · rename_i hbyte
      rcases mem_cons.mp hzero with hnul | hnul
      · exact absurd hnul.symm hbyte
      · exact ih hnul hrest

theorem staysInside_iff_terminated : StaysInside rab other offset ↔ Terminated rab offset := by
  have hlt : rab.bufferEof < wordModulus := rab.bufferEof_lt
  have heof : rab.bufferEof = rab.buffer + rab.bufferSize := rfl
  have hoffset : offset.toNat < wordModulus := offset.toNat_lt
  constructor
  · intro hinside hsource hsrc
    by_contra hzero
    have hread : ∀ rounds, readString rab other offset rounds =
        strcpyLoop (rab.memory other) (rab.buffer + offset.toNat) rounds := by
      intro rounds
      rw [readString, if_pos hsource, strcpy8, if_neg hsrc]
    rcases lt_or_ge rab.bufferSize offset.toNat with hover | hle
    · have hfirst := hinside 1 ((rab.buffer + offset.toNat) % wordModulus)
        (by rw [hread]; exact mem_cons_self)
      rcases lt_or_ge (rab.buffer + offset.toNat) wordModulus with hsmall | hlarge
      · rw [Nat.mod_eq_of_lt hsmall] at hfirst
        omega
      · rw [Nat.mod_eq_sub_mod hlarge, Nat.mod_eq_of_lt (by omega)] at hfirst
        omega
    · have hend := hinside (rab.bufferSize - offset.toNat + 1) rab.bufferEof
        (by rw [hread]; exact mem_strcpyLoop hle hzero)
      omega
  · intro hterminated rounds address hmem
    rw [readString, strcpy8] at hmem
    split at hmem
    · rename_i hsource
      split at hmem
      · cases hmem
      · rename_i hsrc
        exact strcpyLoop_inside (hterminated hsource hsrc) hmem
    · cases hmem

/-- A read is right unless an address wraps, and a string is read within the buffer when it ends
there. -/
theorem exact_iff_unwrapped_terminated (rab : RandomAccessBuffer) (other : Nat → Option UInt8)
    (offset nBytes : UInt32) :
    (ReadsExactly rab other offset nBytes ↔ Unwrapped rab offset nBytes) ∧
      (StaysInside rab other offset ↔ Terminated rab offset) :=
  ⟨readsExactly_iff_unwrapped, staysInside_iff_terminated⟩

def imageBuffer : RandomAccessBuffer where
  source := .kernel
  buffer := 0xC0100000
  bytes := [1, 2, 3, 4]
  bufferEof_lt := by decide

theorem imageBuffer_not_exact :
    (¬ ReadsExactly imageBuffer (fun _ => some 7) 0xFFFFFFFC 4 ∧
        read imageBuffer (fun _ => some 7) 0xFFFFFFFC 4 = some (.success, [7, 7, 7, 7])) ∧
      ¬ StaysInside imageBuffer (fun _ => some 7) 0 := by
  refine ⟨⟨?_, by decide⟩, ?_⟩
  · rw [readsExactly_iff_unwrapped]
    simp [Unwrapped, imageBuffer, RandomAccessBuffer.bufferEof, RandomAccessBuffer.bufferSize,
      wordModulus]
  · rw [staysInside_iff_terminated]
    simp [Terminated, imageBuffer, wordModulus]

end

end Zambesii.IndexBuffer
