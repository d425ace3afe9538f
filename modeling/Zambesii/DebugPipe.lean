import Mathlib.Data.Nat.Digits.Lemmas
import Zambesii.KernelTypes

/-!
The formatter behind `printf` and `snprintf`: `expandPrintfFormatting` and what it calls.
-/

namespace Zambesii.DebugPipe

open KernelTypes List

/-- What a call can do to memory that is not its own. `depth` is the bound on the nesting of the
model. -/
inductive Fault
  | outsideBuffer
  | pastFormat
  | pastArguments
  | depth
deriving DecidableEq

structure CString where
  bytes : List UInt8
  nul_free : 0 ∉ bytes

/-- What the pointers among the arguments lead to. `sizeofPaddr` is `sizeof(paddr_t)`. -/
structure Memory where
  string : UInt32 → CString
  paddr : UInt32 → Nat
  sizeofPaddr : Nat

def store (buff : List UInt8) (i : Nat) (c : UInt8) : Except Fault (List UInt8) :=
  if i < buff.length then .ok (buff.set i c) else .error .outsideBuffer

def storeAll (buff : List UInt8) (i : Nat) : List UInt8 → Except Fault (List UInt8)
  | [] => .ok buff
  | c :: rest => store buff i c >>= fun buff => storeAll buff (i + 1) rest

def strnlen8 (str : List UInt8) (maxLen : Nat) : Nat :=
  min str.length maxLen

/-- `strncpy8`: the rest of the destination is filled with zeroes. -/
def strncpy8 (buff : List UInt8) (dest : Nat) (src : List UInt8) (count : Nat) :
    Except Fault (List UInt8) :=
  storeAll buff dest (src.take count ++ List.replicate (count - src.length) 0)

def toSarch (word : Nat) : Int :=
  if word < 2 ^ 31 then word else (word : Int) - wordModulus

def minusOne : Nat := wordModulus - 1

def tmpBuffSize : Nat := 28

def digitChar (doUpperCase : Bool) (base digit : Nat) : UInt8 :=
  if digit < 10 then (digit + 0x30).toUInt8
  else (digit - 10 + if 10 < base ∧ doUpperCase = true then 0x41 else 0x61).toUInt8

/-- The digits that the first loop of `sprintnum` leaves in its own array, lowest digit first. -/
def collectDigits (num base : Nat) (doUpperCase : Bool) : Except Fault (List UInt8) :=
  let b := (Nat.digits base num).map (digitChar doUpperCase base)
  if b.length ≤ tmpBuffSize then .ok b else .error .outsideBuffer

def sprintnum (buff : List UInt8) (dest buffsize num base : Nat) (isSigned doUpperCase : Bool) :
    Except Fault (Nat × List UInt8) := do
  if base ≠ 10 ∧ base ≠ 16 then
    return (minusOne, buff)
  if num = 0 then
    let buff ← store buff dest 0x30
    return (1, buff)
  if isSigned = true ∧ toSarch num < 0 then
    let buff ← store buff dest 0x2d
    let b ← collectDigits (wordModulus - num) base doUpperCase
    let printed := b.reverse.take (buffsize - 1)
    let buff ← storeAll buff (dest + 1) printed
    return (1 + printed.length, buff)
  let b ← collectDigits num base doUpperCase
  let printed := b.reverse.take buffsize
  let buff ← storeAll buff dest printed
  return (printed.length, buff)

/-- The cases of the `switch` on the byte after a percent sign. -/
inductive Specifier
  | percent
  | signed
  | unsigned
  | hex (leader : List UInt8) (doUpperCase : Bool)
  | paddr
  | string
  | format
  | options
  | other
deriving DecidableEq

def percentSign : UInt8 := 0x25

def zeroX : List UInt8 := [0x30, 0x78]

def virtualX : List UInt8 := [0x76, 0x58]

def paddrLeader : List UInt8 := [0x50, 0x78]

def specifier (c : UInt8) : Specifier :=
  if c = percentSign then .percent
  else if c = 0x69 ∨ c = 0x64 then .signed
  else if c = 0x75 then .unsigned
  else if c = 0x78 then .hex zeroX false
  else if c = 0x70 then .hex virtualX false
  else if c = 0x58 then .hex zeroX true
  else if c = 0x50 then .paddr
  else if c = 0x73 then .string
  else if c = 0x72 then .format
  else if c = 0x2d then .options
  else .other

/-- The loop of `getNumberOfFormatArgsN`, with `maxLength - i` bytes to go. -/
def countFormatArgs : List UInt8 → Nat → Nat → Nat
  | [], _, ret => ret
  | c :: rest, maxLength, ret =>
    if maxLength = 0 then ret
    else if c ≠ percentSign then countFormatArgs rest (maxLength - 1) ret
    else match rest with
      | [] => 0
      | d :: rest =>
        countFormatArgs rest (maxLength - 2)
          (if d = percentSign ∨ d = 0x2d then ret else (ret + 1) % 2 ^ 16)

def getNumberOfFormatArgsN (format : List UInt8) (maxLength : Nat) : Nat :=
  countFormatArgs format maxLength 0

section

/-- A call for a format that is itself an argument: the bytes it could fill, what it returned, the
arguments that it took and those that its caller skipped for it. -/
structure NestedCall where
  room : Nat
  returned : Nat
  consumed : Nat
  skipped : Nat
deriving DecidableEq

/-- `args` are the words from the argument pointer on. The nested calls are recorded for the
specification alone. -/
structure State where
  buff : List UInt8
  args : List UInt32
  flags : Nat
  calls : List NestedCall
deriving DecidableEq

def flagsNolog : Nat := 1

def State.setNolog (state : State) : State :=
  { state with flags := state.flags ||| flagsNolog }

def vaArg (state : State) : Except Fault (UInt32 × State) :=
  match state.args with
  | [] => .error .pastArguments
  | word :: args => .ok (word, { state with args := args })

def skipArgs (n : Nat) (args : List UInt32) : Except Fault (List UInt32) :=
  if n ≤ args.length then .ok (args.drop n) else .error .pastArguments

def nullText : List UInt8 := [0x28, 0x6e, 0x75, 0x6c, 0x6c, 0x29]

def handleNullPointerArg (buff : List UInt8) (dest maxLength : Nat) :
    Except Fault (Nat × List UInt8) := do
  let buff ← strncpy8 buff dest nullText maxLength
  return (strnlen8 nullText maxLength, buff)

abbrev Formatter := (start buffMax : Nat) → List UInt8 → State → Except Fault (Nat × State)

variable (mem : Memory) (nested : Formatter)

/-- The upper word of a physical address, behind the first `nPrinted` bytes. -/
def expandHighWord (buff : List UInt8) (start room nPrinted pnum : Nat) :
    Except Fault (Nat × List UInt8) := do
  if 4 < mem.sizeofPaddr then
    let (n, buff) ← sprintnum buff (start + nPrinted) (room - nPrinted)
      (pnum / wordModulus % wordModulus) 16 false true
    let buff ← store buff (start + nPrinted + n) 0x5f
    return (nPrinted + n + 1, buff)
  return (nPrinted, buff)

def expandPaddr (start room : Nat) (state : State) (ppnum : UInt32) :
    Except Fault (Nat × State) := do
  let pnum := mem.paddr ppnum
  let buff ← strncpy8 state.buff start paddrLeader room
  let nPrinted := strnlen8 paddrLeader room
  let (nPrinted, buff) ← expandHighWord mem buff start room nPrinted pnum
  let (n, buff) ← sprintnum buff (start + nPrinted) room (pnum % wordModulus) 16 false true
  return (nPrinted + n, { state with buff := buff })

def expandFormat (start room : Nat) (state : State) (fmtStr : UInt32) :
    Except Fault (Nat × State) := do
  if fmtStr.toNat < pagingBaseSize then
    let (n, buff) ← handleNullPointerArg state.buff start room
    return (n, { state with buff := buff })
  let (returned, inner) ← nested start room (mem.string fmtStr).bytes state
  let skipped := getNumberOfFormatArgsN (mem.string fmtStr).bytes room
  let args ← skipArgs skipped state.args
  return (returned, { inner with
    args := args
    calls := ⟨room, returned, state.args.length - inner.args.length, skipped⟩ :: inner.calls })

/-- The cases of the `switch` that begin with a `va_arg`, behind it. -/
def convertWord (start room : Nat) (state : State) (word : UInt32) :
    Specifier → Except Fault (Nat × State)
  | .signed => do
    let (n, buff) ← sprintnum state.buff start room word.toNat 10 true false
    return (n, { state with buff := buff })
  | .unsigned => do
    let (n, buff) ← sprintnum state.buff start room word.toNat 10 false false
    return (n, { state with buff := buff })
  | .hex leader doUpperCase => do
    let buff ← strncpy8 state.buff start leader room
    let nPrinted := strnlen8 leader room
    let (n, buff) ← sprintnum buff (start + nPrinted) (room - nPrinted) word.toNat 16 false
      doUpperCase
    return (nPrinted + n, { state with buff := buff })
  | .paddr => expandPaddr mem start room state word
  | .string => do
    if word.toNat < pagingBaseSize then
      let (n, buff) ← handleNullPointerArg state.buff start room
      return (n, { state with buff := buff })
    let u8Strlen := strnlen8 (mem.string word).bytes room
    let buff ← strncpy8 state.buff start (mem.string word).bytes u8Strlen
    return (u8Strlen, { state with buff := buff })
  | .format => expandFormat mem nested start room state word
  | _ => .ok (0, state)

/-- The `switch` but for the options: the number of bytes that are printed at `start`, with `room`
bytes up to the end of the buffer. -/
def convert (start room : Nat) (state : State) (spec : Specifier) : Except Fault (Nat × State) := do
  if spec = .percent then
    let buff ← store state.buff start percentSign
    return (1, { state with buff := buff })
  let (word, state) ← vaArg state
  convertWord mem nested start room state word spec

/-- Where the loop stands: in front of a byte of the text, behind a percent sign, or in the loop
over the options. -/
inductive Mode
  | text
  | specifier
  | options
deriving DecidableEq

def expandLoop (start buffMax : Nat) :
    Mode → List UInt8 → Nat → State → Except Fault (Nat × State)
  | .text, [], buffIndex, state => .ok (buffIndex, state)
  | .text, c :: str, buffIndex, state =>
    if buffIndex < buffMax then
      if c = percentSign then expandLoop start buffMax .specifier str buffIndex state
      else do
        let buff ← store state.buff (start + buffIndex) c
        expandLoop start buffMax .text str ((buffIndex + 1) % wordModulus)
          { state with buff := buff }
    else .ok (buffIndex, state)
  | .specifier, [], _, state => .ok (minusOne, state)
  | .specifier, c :: str, buffIndex, state =>
    if specifier c = .options then expandLoop start buffMax .options str buffIndex state
    else do
      let (nPrinted, state) ← convert mem nested (start + buffIndex) (buffMax - buffIndex) state
        (specifier c)
      expandLoop start buffMax .text str ((buffIndex + nPrinted) % wordModulus) state
  | .options, [], _, _ => .error .pastFormat
  | .options, c :: str, buffIndex, state =>
    if c = 0x20 then expandLoop start buffMax .text str buffIndex state
    else expandLoop start buffMax .options str buffIndex
      (if c = 0x6e then state.setNolog else state)

end

/-- `expandPrintfFormatting` with at most `depth` formats inside one another. -/
def expandNested (mem : Memory) : Nat → Formatter
  | 0, _, _, _, _ => .error .depth
  | depth + 1, start, buffMax, str, state =>
    expandLoop mem (expandNested mem depth) start buffMax .text str 0 state

/-- `expandPrintfFormatting`: every nested format has taken an argument. -/
def expandPrintfFormatting (mem : Memory) (buffMax : Nat) (str : List UInt8) (state : State) :
    Except Fault (Nat × State) :=
  expandNested mem (state.args.length + 1) 0 buffMax str state

def terminatorAt (maxLength : Nat) (nPrinted : Int) : Int :=
  if toSarch maxLength ≤ nPrinted then toSarch ((maxLength + wordModulus - 1) % wordModulus)
  else nPrinted

def snprintf (mem : Memory) (buff : List UInt8) (format : List UInt8) (args : List UInt32) :
    Except Fault (Int × List UInt8) := do
  let maxLength := buff.length
  let (returned, state) ← expandPrintfFormatting mem maxLength format ⟨buff, args, 0, []⟩
  let nPrinted := toSarch returned
  if nPrinted < 0 then
    return (nPrinted, state.buff)
  let nPrinted := terminatorAt maxLength nPrinted
  let buff ← store state.buff (nPrinted % wordModulus).toNat 0
  return (nPrinted, buff)

section

/-- A buffer of a size that a `uarch_t` can hold. -/
structure Buffer where
  bytes : List UInt8
  size_lt : bytes.length < wordModulus

def Returns (room returned : Nat) : Prop :=
  toSarch returned = -1 ∨ 0 ≤ toSarch returned ∧ toSarch returned ≤ room

def NestedCall.Right (call : NestedCall) : Prop :=
  Returns call.room call.returned ∧ call.skipped = call.consumed

/-- Nothing outside the buffer is written and nothing behind a format is read; every call returns
-1 or a count that its buffer holds, and skips for a nested format what that format took. -/
def Right (mem : Memory) (buff : Buffer) (format : CString) (args : List UInt32) : Prop :=
  (∃ returned state, expandPrintfFormatting mem buff.bytes.length format.bytes
      ⟨buff.bytes, args, 0, []⟩ = .ok (returned, state) ∧
    Returns buff.bytes.length returned ∧ ∀ call ∈ state.calls, call.Right) ∧
  ∃ result, snprintf mem buff.bytes format.bytes args = .ok result

def numeral (num base : Nat) (doUpperCase : Bool) : List UInt8 :=
  if num = 0 then [0x30] else ((Nat.digits base num).map (digitChar doUpperCase base)).reverse

def signedNumeral (num : Nat) : List UInt8 :=
  if toSarch num < 0 then 0x2d :: numeral (wordModulus - num) 10 false else numeral num 10 false

def highWordText (mem : Memory) (pnum : Nat) : List UInt8 :=
  if 4 < mem.sizeofPaddr then numeral (pnum / wordModulus % wordModulus) 16 true ++ [0x5f] else []

def paddrText (mem : Memory) (pnum : Nat) : List UInt8 :=
  paddrLeader ++ highWordText mem pnum ++ numeral (pnum % wordModulus) 16 true

def stringText (mem : Memory) (pointer : UInt32) : List UInt8 :=
  if pointer.toNat < pagingBaseSize then nullText else (mem.string pointer).bytes

variable (mem : Memory) (nested : Nat → List UInt8 → List UInt32 → Option (Nat × List UInt32))

/-- A conversion of an argument that is in order with `room` bytes left: the bytes it prints, and
the arguments behind it. -/
def wordConversion (room : Nat) (word : UInt32) (args : List UInt32) :
    Specifier → Option (Nat × List UInt32)
  | .signed => some (min (signedNumeral word.toNat).length room, args)
  | .unsigned => some (min (numeral word.toNat 10 false).length room, args)
  | .hex leader doUpperCase =>
    if room ≤ leader.length ∧ word.toNat = 0 then none
    else some (min (leader ++ numeral word.toNat 16 doUpperCase).length room, args)
  | .paddr =>
    if (paddrText mem (mem.paddr word)).length ≤ room then
      some ((paddrText mem (mem.paddr word)).length, args)
    else none
  | .string => some (min (stringText mem word).length room, args)
  | .format =>
    if word.toNat < pagingBaseSize then some (min nullText.length room, args)
    else
      match nested room (mem.string word).bytes args with
      | none => none
      | some (returned, rest) =>
        if getNumberOfFormatArgsN (mem.string word).bytes room = args.length - rest.length then
          some (returned, args.drop (args.length - rest.length))
        else none
  | _ => some (0, args)

def conversion (room : Nat) (args : List UInt32) (spec : Specifier) : Option (Nat × List UInt32) :=
  if spec = .percent then some (1, args)
  else
    match args with
    | [] => none
    | word :: args => wordConversion mem nested room word args spec

/-- A format that is in order from here on: where its text ends, and the arguments behind it. -/
def reading (buffMax : Nat) :
    Mode → List UInt8 → Nat → List UInt32 → Option (Nat × List UInt32)
  | .text, [], index, args => if index < 2 ^ 31 ∨ index = minusOne then some (index, args) else none
  | .text, c :: str, index, args =>
    if index < buffMax then
      if c = percentSign then reading buffMax .specifier str index args
      else reading buffMax .text str (index + 1) args
    else if index < 2 ^ 31 ∨ index = minusOne then some (index, args)
    else none
  | .specifier, [], _, args => some (minusOne, args)
  | .specifier, c :: str, index, args =>
    if specifier c = .options then reading buffMax .options str index args
    else
      match conversion mem nested (buffMax - index) args (specifier c) with
      | none => none
      | some (printed, args) => reading buffMax .text str ((index + printed) % wordModulus) args
  | .options, [], _, _ => none
  | .options, c :: str, index, args =>
    if c = 0x20 then reading buffMax .text str index args
    else reading buffMax .options str index args

end

/-- The reading of a format with at most `depth` formats inside one another. -/
def readFormat (mem : Memory) :
    Nat → Nat → List UInt8 → List UInt32 → Option (Nat × List UInt32)
  | 0, _, _, _ => none
  | depth + 1, buffMax, str, args =>
    reading mem (readFormat mem depth) buffMax .text str 0 args

/-- Every conversion that is reached is in order, and so is every option and nested format. -/
def Readable (mem : Memory) (buffMax : Nat) (format : CString) (args : List UInt32) : Prop :=
  (readFormat mem (args.length + 1) buffMax format.bytes args).isSome = true

section

theorem exists_of_bind {α β : Type} {x : Except Fault α} {f : α → Except Fault β} {result : β}
    (h : x >>= f = .ok result) : ∃ value, x = .ok value ∧ f value = .ok result := by
  cases x with
  | error fault => cases h
  | ok value => exact ⟨value, rfl, h⟩

variable {buff buff' : List UInt8} {i : Nat} {text : List UInt8}

theorem store_of_lt {c : UInt8} (h : i < buff.length) : store buff i c = .ok (buff.set i c) :=
  if_pos h

theorem exists_store {c : UInt8} (h : i < buff.length) :
    ∃ buff', store buff i c = .ok buff' ∧ buff'.length = buff.length :=
  ⟨buff.set i c, store_of_lt h, length_set⟩

theorem lt_of_store {c : UInt8} (h : store buff i c = .ok buff') :
    i < buff.length ∧ buff'.length = buff.length := by
  unfold store at h
  split at h
  · cases h
    exact ⟨‹_›, length_set⟩
  · cases h

theorem storeAll_of_le (h : i + text.length ≤ buff.length) :
    ∃ buff', storeAll buff i text = .ok buff' ∧ buff'.length = buff.length := by
  induction text generalizing buff i with
  | nil => exact ⟨buff, rfl, rfl⟩
  | cons c rest ih =>
    rw [length_cons] at h
    obtain ⟨buff', hrest, hlength⟩ := @ih (buff.set i c) (i + 1)
      (by rw [length_set]; omega)
    refine ⟨buff', ?_, hlength.trans length_set⟩
    rw [storeAll, store_of_lt (by omega)]
    exact hrest

theorem le_of_storeAll (h : storeAll buff i text = .ok buff') (hne : text ≠ []) :
    i + text.length ≤ buff.length := by
  induction text generalizing buff i with
  | nil => exact absurd rfl hne
  | cons c rest ih =>
    obtain ⟨first, hstore, hrest⟩ := exists_of_bind h
    obtain ⟨hlt, hlength⟩ := lt_of_store hstore
    cases rest with
    | nil => exact hlt
    | cons d rest =>
      have hle := ih hrest (cons_ne_nil d rest)
      rw [hlength, length_cons] at hle
      rw [length_cons, length_cons]
      omega

theorem length_of_storeAll (h : storeAll buff i text = .ok buff') : buff'.length = buff.length := by
  induction text generalizing buff i with
  | nil =>
    cases h
    rfl
  | cons c rest ih =>
    obtain ⟨first, hstore, hrest⟩ := exists_of_bind h
    exact (ih hrest).trans (lt_of_store hstore).2

theorem strncpy8_of_le (src : List UInt8) {count : Nat} (h : i + count ≤ buff.length) :
    ∃ buff', strncpy8 buff i src count = .ok buff' ∧ buff'.length = buff.length := by
  apply storeAll_of_le
  rw [length_append, length_take, length_replicate]
  omega

theorem handleNullPointerArg_of_le {maxLength : Nat} (h : i + maxLength ≤ buff.length) :
    ∃ buff', handleNullPointerArg buff i maxLength = .ok (min nullText.length maxLength, buff') ∧
      buff'.length = buff.length := by
  obtain ⟨buff', hcopy, hlength⟩ := strncpy8_of_le nullText h
  refine ⟨buff', ?_, hlength⟩
  rw [handleNullPointerArg, hcopy]
  rfl

end

section

variable {num base : Nat} {doUpperCase : Bool}

theorem collectDigits_eq (hnum : num < wordModulus) (hbase : base = 10 ∨ base = 16) :
    collectDigits num base doUpperCase =
      .ok ((Nat.digits base num).map (digitChar doUpperCase base)) := by
  have hlength : (Nat.digits base num).length ≤ tmpBuffSize := by
    rcases hbase with rfl | rfl
    · exact (Nat.digits_length_le_iff (by decide) num).mpr (hnum.trans (by decide))
    · exact (Nat.digits_length_le_iff (by decide) num).mpr (hnum.trans (by decide))
  exact if_pos (by rwa [length_map])

theorem numeral_ne_nil : numeral num base doUpperCase ≠ [] := by
  unfold numeral
  split
  · exact cons_ne_nil _ _
  · next hne =>
    rw [ne_eq, reverse_eq_nil_iff, map_eq_nil_iff, Nat.digits_eq_nil_iff_eq_zero]
    exact hne

/-- What `sprintnum` prints of an unsigned number: a zero is printed without a look at the room. -/
def printed (num base : Nat) (doUpperCase : Bool) (buffsize : Nat) : List UInt8 :=
  (numeral num base doUpperCase).take (if num = 0 then max 1 buffsize else buffsize)

theorem sprintnum_unsigned {buff : List UInt8} {dest buffsize : Nat}
    (hnum : num < wordModulus) (hbase : base = 10 ∨ base = 16) :
    sprintnum buff dest buffsize num base false doUpperCase =
      storeAll buff dest (printed num base doUpperCase buffsize) >>= fun buff =>
        .ok ((printed num base doUpperCase buffsize).length, buff) := by
  have hknown : ¬(base ≠ 10 ∧ base ≠ 16) := by omega
  rcases eq_zero_or_pos num with rfl | hpos
  · have hprinted : printed 0 base doUpperCase buffsize = [0x30] := by
      exact take_of_length_le (le_max_left 1 buffsize)
    rw [sprintnum, if_neg hknown, hprinted, storeAll]
    cases store buff dest 0x30 with
    | error fault => rfl
    | ok buff => rfl
  · have hne : num ≠ 0 := hpos.ne'
    have hprinted : printed num base doUpperCase buffsize =
        ((Nat.digits base num).map (digitChar doUpperCase base)).reverse.take buffsize := by
      rw [printed, numeral, if_neg hne, if_neg hne]
    rw [sprintnum, if_neg hknown, if_neg hne, if_neg (fun h => Bool.false_ne_true h.1),
      collectDigits_eq hnum hbase, hprinted]
    rfl

theorem length_printed {buffsize : Nat} (hsize : num = 0 → 0 < buffsize) :
    (printed num base doUpperCase buffsize).length =
      min (numeral num base doUpperCase).length buffsize := by
  rw [printed, length_take, Nat.min_comm]
  split
  · next hzero => rw [max_eq_right (hsize hzero)]
  · rfl

theorem sprintnum_of_le {buff : List UInt8} {dest buffsize : Nat} (hnum : num < wordModulus)
    (hbase : base = 10 ∨ base = 16) (hsize : num = 0 → 0 < buffsize)
    (hfits : dest + buffsize ≤ buff.length) :
    ∃ buff', sprintnum buff dest buffsize num base false doUpperCase =
      .ok (min (numeral num base doUpperCase).length buffsize, buff') ∧
        buff'.length = buff.length := by
  have hlength := @length_printed num base doUpperCase buffsize hsize
  obtain ⟨buff', hstore, hbuff'⟩ := @storeAll_of_le buff dest
    (printed num base doUpperCase buffsize) (by omega)
  refine ⟨buff', ?_, hbuff'⟩
  rw [sprintnum_unsigned hnum hbase, hstore, hlength]
  rfl

theorem sprintnum_whole {buff : List UInt8} {dest buffsize : Nat} (hnum : num < wordModulus)
    (hbase : base = 10 ∨ base = 16) (hsize : (numeral num base doUpperCase).length ≤ buffsize)
    (hfits : dest + (numeral num base doUpperCase).length ≤ buff.length) :
    ∃ buff', sprintnum buff dest buffsize num base false doUpperCase =
      .ok ((numeral num base doUpperCase).length, buff') ∧ buff'.length = buff.length := by
  have hpos : 0 < (numeral num base doUpperCase).length :=
    length_pos_of_ne_nil numeral_ne_nil
  have hlength : (printed num base doUpperCase buffsize).length =
      (numeral num base doUpperCase).length := by
    rw [length_printed (fun _ => hpos.trans_le hsize), min_eq_left hsize]
  obtain ⟨buff', hstore, hbuff'⟩ := @storeAll_of_le buff dest
    (printed num base doUpperCase buffsize) (by omega)
  refine ⟨buff', ?_, hbuff'⟩
  rw [sprintnum_unsigned hnum hbase, hstore, hlength]
  rfl

theorem le_of_sprintnum {buff buff' : List UInt8} {dest buffsize n : Nat}
    (hnum : num < wordModulus) (hbase : base = 10 ∨ base = 16)
    (h : sprintnum buff dest buffsize num base false doUpperCase = .ok (n, buff')) :
    n = (printed num base doUpperCase buffsize).length ∧ buff'.length = buff.length ∧
      (n ≠ 0 → dest + n ≤ buff.length) := by
  rw [sprintnum_unsigned hnum hbase] at h
  obtain ⟨stored, hstore, hresult⟩ := exists_of_bind h
  cases hresult
  refine ⟨rfl, length_of_storeAll hstore, ?_⟩
  intro hne
  exact le_of_storeAll hstore (ne_nil_of_length_pos (pos_of_ne_zero hne))

theorem sprintnum_of_nonneg {buff : List UInt8} {dest buffsize : Nat} (hnonneg : ¬toSarch num < 0) :
    sprintnum buff dest buffsize num base true doUpperCase =
      sprintnum buff dest buffsize num base false doUpperCase := by
  have hsigned : ¬(true = true ∧ toSarch num < 0) := fun h => hnonneg h.2
  have hunsigned : ¬(false = true ∧ toSarch num < 0) := fun h => Bool.false_ne_true h.1
  rw [sprintnum, sprintnum, if_neg hsigned, if_neg hunsigned]

theorem sprintnum_signed {buff : List UInt8} {dest buffsize : Nat} (hnum : num < wordModulus)
    (hsize : 0 < buffsize) (hfits : dest + buffsize ≤ buff.length) :
    ∃ buff', sprintnum buff dest buffsize num 10 true false =
      .ok (min (signedNumeral num).length buffsize, buff') ∧ buff'.length = buff.length := by
  rw [signedNumeral]
  rcases lt_or_ge (toSarch num) 0 with hneg | hnonneg
  · have hne : num ≠ 0 := by
      rintro rfl
      exact absurd hneg (by decide)
    have hopposite : wordModulus - num ≠ 0 := by omega
    have hsign : dest < buff.length := by omega
    rw [if_pos hneg, numeral, if_neg hopposite]
    generalize hb : (Nat.digits 10 (wordModulus - num)).map (digitChar false 10) = b
    have hlength : (b.reverse.take (buffsize - 1)).length = min (buffsize - 1) b.length := by
      rw [length_take, length_reverse]
    obtain ⟨buff', hstore, hbuff'⟩ := @storeAll_of_le (buff.set dest 0x2d) (dest + 1)
      (b.reverse.take (buffsize - 1)) (by rw [hlength, length_set]; omega)
    refine ⟨buff', ?_, hbuff'.trans length_set⟩
    have hcount : 1 + (b.reverse.take (buffsize - 1)).length =
        min (0x2d :: b.reverse).length buffsize := by
      rw [hlength, length_cons, length_reverse]
      omega
    rw [sprintnum, if_neg (by decide), if_neg hne, if_pos ⟨rfl, hneg⟩, store_of_lt hsign,
      collectDigits_eq (by omega) (.inl rfl), hb, ← hcount]
    change (storeAll (buff.set dest 0x2d) (dest + 1) (b.reverse.take (buffsize - 1)) >>= _) = _
    rw [hstore]
    rfl
  · have hnonneg : ¬toSarch num < 0 := by omega
    rw [if_neg hnonneg, sprintnum_of_nonneg hnonneg]
    exact sprintnum_of_le hnum (.inl rfl) (fun _ => hsize) hfits

end

theorem returns_minusOne (room : Nat) : Returns room minusOne :=
  .inl (by decide)

theorem returns_of_le {room index : Nat} (hsmall : index < 2 ^ 31 ∨ index = minusOne)
    (hle : index ≤ room ∨ index = minusOne) : Returns room index := by
  rcases eq_or_ne index minusOne with rfl | hne
  · exact returns_minusOne room
  · rw [Returns, toSarch, if_pos (hsmall.resolve_right hne)]
    exact .inr ⟨by omega, by omega⟩

theorem not_returns {room index : Nat} (hlarge : ¬(index < 2 ^ 31 ∨ index = minusOne))
    (hword : index < wordModulus) : ¬Returns room index := by
  obtain ⟨hlarge, hne⟩ := not_or.mp hlarge
  rw [Returns, toSarch, if_neg hlarge]
  simp only [minusOne, wordModulus] at *
  omega

section

def AllRight (calls : List NestedCall) : Prop :=
  ∀ call ∈ calls, call.Right

theorem AllRight.of_suffix {calls calls' : List NestedCall} (hsuffix : calls <:+ calls')
    (h : AllRight calls') : AllRight calls :=
  fun call hcall => h call (hsuffix.subset hcall)

structure Leads (state : State) (args : List UInt32) (state' : State) : Prop where
  args_eq : state'.args = args
  length_eq : state'.buff.length = state.buff.length
  right : AllRight state'.calls

structure Agrees (nested : Formatter)
    (reader : Nat → List UInt8 → List UInt32 → Option (Nat × List UInt32)) : Prop where
  grows : ∀ {start room str state returned state'},
    nested start room str state = .ok (returned, state') → state.calls <:+ state'.calls
  of_some : ∀ {start room str state returned rest}, room < wordModulus →
    start + room = state.buff.length → AllRight state.calls →
    reader room str state.args = some (returned, rest) →
    ∃ state', nested start room str state = .ok (returned, state') ∧ Leads state rest state' ∧
      Returns room returned ∧ (returned ≤ room ∨ returned = minusOne)
  of_none : ∀ {start room str state returned state'}, room < wordModulus →
    start + room = state.buff.length → AllRight state.calls →
    reader room str state.args = none → nested start room str state = .ok (returned, state') →
    ¬(Returns room returned ∧ AllRight state'.calls)

variable {mem : Memory} {nested : Formatter}
  {reader : Nat → List UInt8 → List UInt32 → Option (Nat × List UInt32)}
  {start room : Nat} {state state' : State}

theorem vaArg_cons {word : UInt32} {args : List UInt32} (h : state.args = word :: args) :
    vaArg state = .ok (word, { state with args := args }) := by
  rw [vaArg, h]

theorem vaArg_nil (h : state.args = []) : vaArg state = .error .pastArguments := by
  rw [vaArg, h]

theorem toNat_lt (word : UInt32) : word.toNat < wordModulus :=
  word.toNat_lt

theorem hex_of_room {leader : List UInt8} {doUpperCase : Bool} {word : UInt32}
    (hlength : start + room = state.buff.length)
    (h : ¬(room ≤ leader.length ∧ word.toNat = 0)) :
    ∃ buff, convertWord mem nested start room state word (.hex leader doUpperCase) =
      .ok (min (leader ++ numeral word.toNat 16 doUpperCase).length room,
        { state with buff := buff }) ∧ buff.length = state.buff.length := by
  obtain ⟨first, hcopy, hfirst⟩ := strncpy8_of_le leader hlength.le
  obtain ⟨buff, hprint, hbuff⟩ := @sprintnum_of_le word.toNat 16 doUpperCase first
    (start + strnlen8 leader room) (room - strnlen8 leader room) (toNat_lt word) (.inr rfl)
    (by unfold strnlen8; omega) (by unfold strnlen8; omega)
  refine ⟨buff, ?_, hbuff.trans hfirst⟩
  have hcount : strnlen8 leader room +
      min (numeral word.toNat 16 doUpperCase).length (room - strnlen8 leader room) =
        min (leader ++ numeral word.toNat 16 doUpperCase).length room := by
    rw [length_append, strnlen8]
    omega
  rw [convertWord, hcopy, ← hcount]
  change (sprintnum first _ _ _ 16 false doUpperCase >>= _) = _
  rw [hprint]
  rfl

theorem hex_of_no_room {leader : List UInt8} {doUpperCase : Bool} {word : UInt32} {n : Nat}
    (hlength : start + room = state.buff.length) (h : room ≤ leader.length ∧ word.toNat = 0) :
    convertWord mem nested start room state word (.hex leader doUpperCase) ≠ .ok (n, state') := by
  obtain ⟨first, hcopy, hfirst⟩ := strncpy8_of_le leader hlength.le
  have hend : ¬start + strnlen8 leader room < first.length := by
    unfold strnlen8
    omega
  rw [convertWord, hcopy]
  change (sprintnum first _ _ _ 16 false doUpperCase >>= _) ≠ _
  rw [sprintnum, if_neg (by decide), if_pos h.2, store, if_neg hend]
  rintro ⟨⟩

section

variable {buff buff' : List UInt8} {nPrinted n pnum : Nat}

theorem expandHighWord_of_room (hlength : start + room = buff.length)
    (h : nPrinted + (highWordText mem pnum).length ≤ room) :
    ∃ buff', expandHighWord mem buff start room nPrinted pnum =
      .ok (nPrinted + (highWordText mem pnum).length, buff') ∧ buff'.length = buff.length := by
  rw [highWordText] at h ⊢
  unfold expandHighWord
  split at h
  · next hwide =>
    rw [length_append, length_singleton] at h
    obtain ⟨first, hprint, hfirst⟩ := @sprintnum_whole (pnum / wordModulus % wordModulus) 16 true
      buff (start + nPrinted) (room - nPrinted) (Nat.mod_lt _ wordModulus_pos) (.inr rfl)
      (by omega) (by omega)
    obtain ⟨buff', hstore, hbuff'⟩ := @exists_store first
      (start + nPrinted + (numeral (pnum / wordModulus % wordModulus) 16 true).length) 0x5f
      (by omega)
    refine ⟨buff', ?_, hbuff'.trans hfirst⟩
    rw [if_pos hwide, if_pos hwide, hprint, length_append, length_singleton]
    change (store first _ 0x5f >>= _) = _
    rw [hstore]
    rfl
  · next hnarrow =>
    refine ⟨buff, ?_, rfl⟩
    rw [if_neg hnarrow, if_neg hnarrow]
    rfl

theorem le_of_expandHighWord (hlength : start + room = buff.length) (hnPrinted : nPrinted ≤ room)
    (h : expandHighWord mem buff start room nPrinted pnum = .ok (n, buff')) :
    n = nPrinted + (highWordText mem pnum).length ∧ buff'.length = buff.length ∧ n ≤ room := by
  rw [highWordText]
  unfold expandHighWord at h
  split at h
  · next hwide =>
    rw [if_pos hwide]
    obtain ⟨⟨count, first⟩, hprint, h⟩ := exists_of_bind h
    obtain ⟨second, hstore, h⟩ := exists_of_bind h
    cases h
    obtain ⟨hcount, hfirst, -⟩ := le_of_sprintnum (Nat.mod_lt _ wordModulus_pos) (.inr rfl)
      hprint
    obtain ⟨hlt, hsecond⟩ := lt_of_store hstore
    -- The separator is inside the buffer, so the word was not cut off.
    rw [length_printed (by omega)] at hcount
    rw [length_append, length_singleton]
    exact ⟨by omega, hsecond.trans hfirst, by omega⟩
  · next hnarrow =>
    cases h
    rw [if_neg hnarrow]
    exact ⟨rfl, rfl, hnPrinted⟩

theorem expandPaddr_of_room {word : UInt32} (hlength : start + room = state.buff.length)
    (h : (paddrText mem (mem.paddr word)).length ≤ room) :
    ∃ buff, expandPaddr mem start room state word =
      .ok ((paddrText mem (mem.paddr word)).length, { state with buff := buff }) ∧
        buff.length = state.buff.length := by
  rw [paddrText, length_append, length_append] at h ⊢
  have hleader : strnlen8 paddrLeader room = paddrLeader.length := min_eq_left (by omega)
  obtain ⟨first, hcopy, hfirst⟩ := strncpy8_of_le paddrLeader hlength.le
  obtain ⟨second, hhigh, hsecond⟩ := @expandHighWord_of_room mem start room first
    paddrLeader.length (mem.paddr word) (hlength.trans hfirst.symm) (by omega)
  obtain ⟨buff, hlow, hbuff⟩ := @sprintnum_whole (mem.paddr word % wordModulus) 16 true second
    (start + (paddrLeader.length + (highWordText mem (mem.paddr word)).length)) room
    (Nat.mod_lt _ wordModulus_pos) (.inr rfl) (by omega) (by omega)
  refine ⟨buff, ?_, hbuff.trans (hsecond.trans hfirst)⟩
  rw [expandPaddr, hcopy]
  change (expandHighWord mem first start room (strnlen8 paddrLeader room) _ >>= _) = _
  rw [hleader, hhigh]
  change (sprintnum second _ room _ 16 false true >>= _) = _
  rw [hlow]
  rfl

theorem le_of_expandPaddr {word : UInt32} (hroom : 0 < room)
    (hlength : start + room = state.buff.length)
    (h : expandPaddr mem start room state word = .ok (n, state')) :
    (paddrText mem (mem.paddr word)).length ≤ room := by
  rw [paddrText, length_append, length_append]
  obtain ⟨first, hcopy, h⟩ := exists_of_bind h
  obtain ⟨⟨nPrinted, second⟩, hhigh, h⟩ := exists_of_bind h
  obtain ⟨⟨count, buff⟩, hlow, -⟩ := exists_of_bind h
  have hfirst : first.length = state.buff.length := length_of_storeAll hcopy
  obtain ⟨hnPrinted, hsecond, hle⟩ := le_of_expandHighWord (hlength.trans hfirst.symm)
    (min_le_right _ _) hhigh
  obtain ⟨hcount, -, hfits⟩ := le_of_sprintnum (Nat.mod_lt _ wordModulus_pos) (.inr rfl) hlow
  rw [length_printed (fun _ => hroom)] at hcount
  have hpos : 0 < (numeral (mem.paddr word % wordModulus) 16 true).length :=
    length_pos_of_ne_nil numeral_ne_nil
  have htwo : paddrLeader.length = 2 := rfl
  omega

end

section

variable {word : UInt32} {n : Nat} {args : List UInt32}

theorem string_of_room (hlength : start + room = state.buff.length) :
    ∃ buff, convertWord mem nested start room state word .string =
      .ok (min (stringText mem word).length room, { state with buff := buff }) ∧
        buff.length = state.buff.length := by
  rw [stringText, convertWord]
  split
  · obtain ⟨buff, hcopy, hbuff⟩ := handleNullPointerArg_of_le hlength.le
    refine ⟨buff, ?_, hbuff⟩
    rw [hcopy]
    rfl
  obtain ⟨buff, hcopy, hbuff⟩ := @strncpy8_of_le state.buff start (mem.string word).bytes
    (strnlen8 (mem.string word).bytes room) (by unfold strnlen8; omega)
  refine ⟨buff, ?_, hbuff⟩
  change (strncpy8 state.buff start _ (strnlen8 (mem.string word).bytes room) >>= _) = _
  rw [hcopy]
  rfl

variable (hagrees : Agrees nested reader)

include hagrees

theorem expandFormat_of_conversion (hword : room < wordModulus)
    (hlength : start + room = state.buff.length) (hright : AllRight state.calls)
    (h : wordConversion mem reader room word state.args .format = some (n, args)) :
    ∃ state', expandFormat mem nested start room state word = .ok (n, state') ∧
      Leads state args state' ∧ (n ≤ room ∨ n = minusOne) := by
  rw [wordConversion] at h
  rw [expandFormat]
  split at h
  · next hnull =>
    cases h
    obtain ⟨buff, hcopy, hbuff⟩ := handleNullPointerArg_of_le hlength.le
    refine ⟨{ state with buff := buff }, ?_, ⟨rfl, hbuff, hright⟩, .inl (min_le_right _ _)⟩
    rw [if_pos hnull, hcopy]
    rfl
  next hnonnull =>
  rw [if_neg hnonnull]
  split at h
  · cases h
  next returned rest hread =>
  split at h
  · next hcount =>
    cases h
    obtain ⟨inner, hinner, hleads, hreturns, hreturned⟩ :=
      hagrees.of_some hword hlength hright hread
    refine ⟨{ inner with
      args := state.args.drop (state.args.length - rest.length)
      calls := ⟨room, n, state.args.length - inner.args.length,
        getNumberOfFormatArgsN (mem.string word).bytes room⟩ :: inner.calls },
      ?_, ⟨rfl, hleads.length_eq, ?_⟩, hreturned⟩
    · rw [hinner, hcount]
      change (skipArgs (state.args.length - rest.length) state.args >>= _) = _
      rw [skipArgs, if_pos (Nat.sub_le _ _)]
      rfl
    · rintro call (_ | ⟨_, hcall⟩)
      · refine ⟨hreturns, ?_⟩
        rw [hleads.args_eq]
        exact hcount
      · exact hleads.right call hcall
  · cases h

theorem expandFormat_of_none (hword : room < wordModulus)
    (hlength : start + room = state.buff.length) (hright : AllRight state.calls)
    (h : wordConversion mem reader room word state.args .format = none)
    (hexpand : expandFormat mem nested start room state word = .ok (n, state')) :
    ¬AllRight state'.calls := by
  rw [wordConversion] at h
  rw [expandFormat] at hexpand
  split at h
  · cases h
  next hnonnull =>
  rw [if_neg hnonnull] at hexpand
  obtain ⟨⟨returned, inner⟩, hinner, hexpand⟩ := exists_of_bind hexpand
  obtain ⟨left, -, hexpand⟩ := exists_of_bind hexpand
  cases hexpand
  intro hall
  obtain ⟨hreturns, hskipped⟩ := hall _ mem_cons_self
  have hcalls : AllRight inner.calls := fun call hcall => hall call (.tail _ hcall)
  split at h
  · next hread =>
    exact hagrees.of_none hword hlength hright hread hinner ⟨hreturns, hcalls⟩
  next returned' rest hread =>
  obtain ⟨inner', hinner', hleads, -⟩ := hagrees.of_some hword hlength hright hread
  cases hinner.symm.trans hinner'
  rw [if_pos] at h
  · cases h
  · rw [← hleads.args_eq]
    exact hskipped

theorem convertWord_of_conversion (hroom : 0 < room)
    (hword : room < wordModulus) (hlength : start + room = state.buff.length)
    (hright : AllRight state.calls) {spec : Specifier}
    (h : wordConversion mem reader room word state.args spec = some (n, args)) :
    ∃ state', convertWord mem nested start room state word spec = .ok (n, state') ∧
      Leads state args state' ∧ (n ≤ room ∨ n = minusOne) := by
  cases spec with
  | signed =>
    cases h
    obtain ⟨buff, hprint, hbuff⟩ := sprintnum_signed (toNat_lt word) hroom hlength.le
    refine ⟨{ state with buff := buff }, ?_, ⟨rfl, hbuff, hright⟩, .inl (min_le_right _ _)⟩
    rw [convertWord, hprint]
    rfl
  | unsigned =>
    cases h
    obtain ⟨buff, hprint, hbuff⟩ := @sprintnum_of_le word.toNat 10 false _ _ _ (toNat_lt word)
      (.inl rfl) (fun _ => hroom) hlength.le
    refine ⟨{ state with buff := buff }, ?_, ⟨rfl, hbuff, hright⟩, .inl (min_le_right _ _)⟩
    rw [convertWord, hprint]
    rfl
  | hex leader doUpperCase =>
    rw [wordConversion] at h
    split at h
    · cases h
    · next henough =>
      cases h
      obtain ⟨buff, hconvert, hbuff⟩ := hex_of_room hlength henough
      exact ⟨_, hconvert, ⟨rfl, hbuff, hright⟩, .inl (min_le_right _ _)⟩
  | paddr =>
    rw [wordConversion] at h
    split at h
    · next hfits =>
      cases h
      obtain ⟨buff, hconvert, hbuff⟩ := expandPaddr_of_room hlength hfits
      exact ⟨_, hconvert, ⟨rfl, hbuff, hright⟩, .inl hfits⟩
    · cases h
  | string =>
    cases h
    obtain ⟨buff, hconvert, hbuff⟩ := string_of_room hlength
    exact ⟨_, hconvert, ⟨rfl, hbuff, hright⟩, .inl (min_le_right _ _)⟩
  | format => exact expandFormat_of_conversion hagrees hword hlength hright h
  | percent =>
    cases h
    exact ⟨state, rfl, ⟨rfl, rfl, hright⟩, Or.inl (Nat.zero_le room)⟩
  | options =>
    cases h
    exact ⟨state, rfl, ⟨rfl, rfl, hright⟩, Or.inl (Nat.zero_le room)⟩
  | other =>
    cases h
    exact ⟨state, rfl, ⟨rfl, rfl, hright⟩, Or.inl (Nat.zero_le room)⟩

theorem convertWord_of_none (hroom : 0 < room)
    (hword : room < wordModulus) (hlength : start + room = state.buff.length)
    (hright : AllRight state.calls) {spec : Specifier}
    (h : wordConversion mem reader room word state.args spec = none)
    (hconvert : convertWord mem nested start room state word spec = .ok (n, state')) :
    ¬AllRight state'.calls := by
  cases spec with
  | hex leader doUpperCase =>
    rw [wordConversion] at h
    split at h
    · next hshort => exact absurd hconvert (hex_of_no_room hlength hshort)
    · cases h
  | paddr =>
    rw [wordConversion, if_pos (le_of_expandPaddr hroom hlength hconvert)] at h
    cases h
  | format => exact expandFormat_of_none hagrees hword hlength hright h hconvert
  | signed => cases h
  | unsigned => cases h
  | string => cases h
  | percent => cases h
  | options => cases h
  | other => cases h

omit hagrees

end

section

theorem convertWord_cases {word : UInt32} {spec : Specifier} {n : Nat}
    (h : convertWord mem nested start room state word spec = .ok (n, state')) :
    (∃ buff, state' = { state with buff := buff }) ∨
    ∃ str returned inner call k, nested start room str state = .ok (returned, inner) ∧
      state' = { inner with args := state.args.drop k, calls := call :: inner.calls } := by
  cases spec with
  | signed =>
    obtain ⟨result, -, h⟩ := exists_of_bind h
    cases h
    exact .inl ⟨_, rfl⟩
  | unsigned =>
    obtain ⟨result, -, h⟩ := exists_of_bind h
    cases h
    exact .inl ⟨_, rfl⟩
  | hex leader doUpperCase =>
    obtain ⟨first, -, h⟩ := exists_of_bind h
    obtain ⟨result, -, h⟩ := exists_of_bind h
    cases h
    exact .inl ⟨_, rfl⟩
  | paddr =>
    obtain ⟨first, -, h⟩ := exists_of_bind h
    obtain ⟨second, -, h⟩ := exists_of_bind h
    obtain ⟨result, -, h⟩ := exists_of_bind h
    cases h
    exact .inl ⟨_, rfl⟩
  | string =>
    rw [convertWord] at h
    split at h
    · obtain ⟨result, -, h⟩ := exists_of_bind h
      cases h
      exact .inl ⟨_, rfl⟩
    · obtain ⟨result, -, h⟩ := exists_of_bind h
      cases h
      exact .inl ⟨_, rfl⟩
  | format =>
    rw [convertWord, expandFormat] at h
    split at h
    · obtain ⟨result, -, h⟩ := exists_of_bind h
      cases h
      exact .inl ⟨_, rfl⟩
    obtain ⟨⟨returned, inner⟩, hinner, h⟩ := exists_of_bind h
    obtain ⟨left, hskip, h⟩ := exists_of_bind h
    cases h
    unfold skipArgs at hskip
    split at hskip
    · cases hskip
      exact .inr ⟨_, _, inner, _, _, hinner, rfl⟩
    · cases hskip
  | percent =>
    cases h
    exact .inl ⟨_, rfl⟩
  | options =>
    cases h
    exact .inl ⟨_, rfl⟩
  | other =>
    cases h
    exact .inl ⟨_, rfl⟩

theorem vaArg_cases {popped : State} {word : UInt32} (h : vaArg state = .ok (word, popped)) :
    state.args = word :: popped.args ∧ popped = { state with args := popped.args } := by
  unfold vaArg at h
  split at h
  · cases h
  · next hargs =>
    cases h
    exact ⟨hargs, rfl⟩

theorem convert_cases {spec : Specifier} {n : Nat}
    (h : convert mem nested start room state spec = .ok (n, state')) :
    (∃ buff args, args <:+ state.args ∧ state' = { state with buff := buff, args := args }) ∨
    ∃ str popped returned inner call args, popped.args.length < state.args.length ∧
      popped.calls = state.calls ∧ nested start room str popped = .ok (returned, inner) ∧
      args <:+ state.args ∧
      state' = { inner with args := args, calls := call :: inner.calls } := by
  rw [convert] at h
  split at h
  · obtain ⟨buff, -, h⟩ := exists_of_bind h
    cases h
    exact .inl ⟨buff, state.args, suffix_rfl, rfl⟩
  obtain ⟨⟨word, popped⟩, hpopped, h⟩ := exists_of_bind h
  obtain ⟨hargs, hpopped⟩ := vaArg_cases hpopped
  have hsuffix : popped.args <:+ state.args := by
    rw [hargs]
    exact suffix_cons word popped.args
  rcases convertWord_cases h with ⟨buff, rfl⟩ | ⟨str, returned, inner, call, k, hinner, rfl⟩
  · refine .inl ⟨buff, popped.args, hsuffix, ?_⟩
    rw [hpopped]
  refine .inr ⟨str, popped, returned, inner, call, _, ?_, ?_, hinner,
    (drop_suffix k popped.args).trans hsuffix, rfl⟩
  · rw [hargs, length_cons]
    exact Nat.lt_succ_self _
  · rw [hpopped]

variable (hagrees : Agrees nested reader)

include hagrees

theorem convert_grows {spec : Specifier} {n : Nat}
    (h : convert mem nested start room state spec = .ok (n, state')) :
    state.calls <:+ state'.calls := by
  rcases convert_cases h with ⟨buff, args, -, rfl⟩ |
    ⟨str, popped, returned, inner, call, args, -, hcalls, hinner, -, rfl⟩
  · exact suffix_rfl
  · rw [← hcalls]
    exact (hagrees.grows hinner).trans (suffix_cons call inner.calls)

theorem convert_of_conversion (hroom : 0 < room)
    (hword : room < wordModulus) (hlength : start + room = state.buff.length)
    (hright : AllRight state.calls) {spec : Specifier} {n : Nat} {args : List UInt32}
    (h : conversion mem reader room state.args spec = some (n, args)) :
    ∃ state', convert mem nested start room state spec = .ok (n, state') ∧
      Leads state args state' ∧ (n ≤ room ∨ n = minusOne) := by
  unfold conversion at h
  rw [convert]
  split at h
  · next hpercent =>
    cases h
    obtain ⟨buff, hstore, hbuff⟩ := @exists_store state.buff start percentSign (by omega)
    refine ⟨{ state with buff := buff }, ?_, ⟨rfl, hbuff, hright⟩, .inl hroom⟩
    rw [if_pos hpercent, hstore]
    rfl
  next hother =>
  rw [if_neg hother]
  split at h
  · cases h
  next word rest hargs =>
  obtain ⟨state', hconvert, hleads, hn⟩ := @convertWord_of_conversion mem nested reader
    start room { state with args := rest } word n args hagrees hroom hword hlength hright
    spec h
  refine ⟨state', ?_, ⟨hleads.args_eq, hleads.length_eq, hleads.right⟩, hn⟩
  rw [vaArg_cons hargs]
  exact hconvert

theorem convert_of_none (hroom : 0 < room)
    (hword : room < wordModulus) (hlength : start + room = state.buff.length)
    (hright : AllRight state.calls) {spec : Specifier} {n : Nat}
    (h : conversion mem reader room state.args spec = none)
    (hconvert : convert mem nested start room state spec = .ok (n, state')) :
    ¬AllRight state'.calls := by
  unfold conversion at h
  rw [convert] at hconvert
  split at h
  · cases h
  next hother =>
  rw [if_neg hother] at hconvert
  split at h
  · next hargs =>
    rw [vaArg_nil hargs] at hconvert
    cases hconvert
  · next word rest hargs =>
    rw [vaArg_cons hargs] at hconvert
    exact @convertWord_of_none mem nested reader start room { state with args := rest } state'
      word n hagrees hroom hword hlength hright spec h hconvert

omit hagrees

variable {buffMax : Nat}

theorem expandLoop_grows (hagrees : Agrees nested reader) {str : List UInt8} {mode : Mode}
    {index returned : Nat}
    (h : expandLoop mem nested start buffMax mode str index state = .ok (returned, state')) :
    state.calls <:+ state'.calls := by
  induction str generalizing mode index state with
  | nil =>
    cases mode with
    | text =>
      cases h
      exact suffix_rfl
    | specifier =>
      cases h
      exact suffix_rfl
    | options => cases h
  | cons c str ih =>
    cases mode with
    | text =>
      rw [expandLoop] at h
      split at h
      · split at h
        · exact ih h
        · obtain ⟨buff, -, h⟩ := exists_of_bind h
          exact @ih { state with buff := buff } _ _ h
      · cases h
        exact suffix_rfl
    | specifier =>
      rw [expandLoop] at h
      split at h
      · exact ih h
      · obtain ⟨⟨n, middle⟩, hconvert, h⟩ := exists_of_bind h
        exact (convert_grows hagrees hconvert).trans (ih h)
    | options =>
      rw [expandLoop] at h
      split at h
      · exact ih h
      · split at h
        · exact @ih state.setNolog _ _ h
        · exact ih h

def Mode.At (buffMax index : Nat) : Mode → Prop
  | .text => index ≤ buffMax ∨ index = minusOne
  | _ => index < buffMax

theorem Mode.At.advance {index n : Nat} (h : index < buffMax) (hword : buffMax < wordModulus)
    (hn : n ≤ buffMax - index ∨ n = minusOne) :
    Mode.At buffMax ((index + n) % wordModulus) .text := by
  rcases hn with hn | rfl
  · rw [Nat.mod_eq_of_lt (by omega)]
    exact .inl (by omega)
  rcases eq_zero_or_pos index with rfl | hpos
  · exact .inr (by decide)
  refine .inl ?_
  have hsum : index + minusOne = (index - 1) + wordModulus := by
    have hone : minusOne + 1 = wordModulus := by decide
    omega
  rw [hsum, Nat.add_mod_right, Nat.mod_eq_of_lt (by omega)]
  omega

theorem expandLoop_of_reading (hagrees : Agrees nested reader) (hword : buffMax < wordModulus)
    {str : List UInt8} {mode : Mode} {index returned : Nat} {rest : List UInt32}
    (hat : mode.At buffMax index) (hlength : start + buffMax = state.buff.length)
    (hright : AllRight state.calls)
    (h : reading mem reader buffMax mode str index state.args = some (returned, rest)) :
    ∃ state', expandLoop mem nested start buffMax mode str index state = .ok (returned, state') ∧
      Leads state rest state' ∧ Returns buffMax returned ∧
        (returned ≤ buffMax ∨ returned = minusOne) := by
  induction str generalizing mode index state with
  | nil =>
    cases mode with
    | text =>
      rw [reading] at h
      split at h
      · next hsmall =>
        cases h
        exact ⟨state, rfl, ⟨rfl, rfl, hright⟩, returns_of_le hsmall hat, hat⟩
      · cases h
    | specifier =>
      cases h
      exact ⟨state, rfl, ⟨rfl, rfl, hright⟩, returns_minusOne buffMax, .inr rfl⟩
    | options => cases h
  | cons c str ih =>
    cases mode with
    | text =>
      rw [reading] at h
      rw [expandLoop]
      split at h
      · next hlt =>
        rw [if_pos hlt]
        split at h
        · next hpercent =>
          rw [if_pos hpercent]
          exact @ih state .specifier index hlt hlength hright h
        next hplain =>
        obtain ⟨buff, hstore, hbuff⟩ := @exists_store state.buff (start + index) c
          (by omega)
        rw [if_neg hplain, hstore]
        obtain ⟨state', hloop, hleads, hreturned⟩ := @ih { state with buff := buff }
          .text (index + 1) (.inl hlt) (hlength.trans hbuff.symm) hright h
        rw [Nat.mod_eq_of_lt (by omega)]
        exact ⟨state', hloop, ⟨hleads.args_eq, hleads.length_eq.trans hbuff,
          hleads.right⟩, hreturned⟩
      · next hfull =>
        rw [if_neg hfull]
        split at h
        · next hsmall =>
          cases h
          exact ⟨state, rfl, ⟨rfl, rfl, hright⟩, returns_of_le hsmall hat, hat⟩
        · cases h
    | specifier =>
      have hlt : index < buffMax := hat
      rw [reading] at h
      rw [expandLoop]
      split at h
      · next hoptions =>
        rw [if_pos hoptions]
        exact @ih state .options index hlt hlength hright h
      next hspec =>
      rw [if_neg hspec]
      split at h
      · cases h
      next n args hconversion =>
      obtain ⟨middle, hconvert, hmiddle, hn⟩ := @convert_of_conversion mem nested
        reader (start + index) (buffMax - index) state hagrees (by omega) (by omega)
        (by omega) hright (specifier c) n args hconversion
      rw [← hmiddle.args_eq] at h
      obtain ⟨state', hloop, hleads, hreturned⟩ := @ih middle .text _
        (Mode.At.advance hlt hword hn) (hlength.trans hmiddle.length_eq.symm)
        hmiddle.right h
      rw [hconvert]
      exact ⟨state', hloop, ⟨hleads.args_eq,
        hleads.length_eq.trans hmiddle.length_eq, hleads.right⟩, hreturned⟩
    | options =>
      have hlt : index < buffMax := hat
      rw [reading] at h
      rw [expandLoop]
      split at h
      · next hblank =>
        rw [if_pos hblank]
        exact @ih state .text index (.inl hlt.le) hlength hright h
      next hoption =>
      rw [if_neg hoption]
      split
      · obtain ⟨state', hloop, hleads, hreturned⟩ :=
          @ih state.setNolog .options index hlt hlength hright h
        exact ⟨state', hloop, ⟨hleads.args_eq, hleads.length_eq, hleads.right⟩, hreturned⟩
      · exact @ih state .options index hlt hlength hright h

theorem expandLoop_of_none (hagrees : Agrees nested reader) (hword : buffMax < wordModulus)
    {str : List UInt8} {mode : Mode} {index returned : Nat}
    (hat : mode.At buffMax index) (hlength : start + buffMax = state.buff.length)
    (hright : AllRight state.calls)
    (h : reading mem reader buffMax mode str index state.args = none)
    (hloop : expandLoop mem nested start buffMax mode str index state = .ok (returned, state')) :
    ¬(Returns buffMax returned ∧ AllRight state'.calls) := by
  have hindex : ∀ {index}, Mode.At buffMax index .text → index < wordModulus := by
    rintro index (hle | rfl)
    · omega
    · decide
  induction str generalizing mode index state with
  | nil =>
    cases mode with
    | text =>
      rw [reading] at h
      split at h
      · cases h
      · next hlarge =>
        cases hloop
        exact fun hboth => not_returns hlarge (hindex hat) hboth.1
    | specifier => cases h
    | options => cases hloop
  | cons c str ih =>
    cases mode with
    | text =>
      rw [reading] at h
      rw [expandLoop] at hloop
      split at h
      · next hlt =>
        rw [if_pos hlt] at hloop
        split at h
        · next hpercent =>
          rw [if_pos hpercent] at hloop
          exact @ih state .specifier index hlt hlength hright h hloop
        next hplain =>
        rw [if_neg hplain] at hloop
        obtain ⟨buff, hstore, hloop⟩ := exists_of_bind hloop
        have hbuff := (lt_of_store hstore).2
        rw [Nat.mod_eq_of_lt (by omega)] at hloop
        exact @ih { state with buff := buff } .text (index + 1) (.inl hlt)
          (hlength.trans hbuff.symm) hright h hloop
      · next hfull =>
        rw [if_neg hfull] at hloop
        split at h
        · cases h
        · next hlarge =>
          cases hloop
          exact fun hboth => not_returns hlarge (hindex hat) hboth.1
    | specifier =>
      have hlt : index < buffMax := hat
      rw [reading] at h
      rw [expandLoop] at hloop
      split at h
      · next hoptions =>
        rw [if_pos hoptions] at hloop
        exact @ih state .options index hlt hlength hright h hloop
      next hspec =>
      rw [if_neg hspec] at hloop
      obtain ⟨⟨n, middle⟩, hconvert, hloop⟩ := exists_of_bind hloop
      split at h
      · next hconversion =>
        -- What a conversion did wrong stays on record to the end of the run.
        intro hboth
        exact @convert_of_none mem nested reader (start + index) (buffMax - index) state
          middle hagrees (by omega) (by omega) (by omega) hright (specifier c) n
          hconversion hconvert
          (hboth.2.of_suffix (expandLoop_grows hagrees hloop))
      next n' args hconversion =>
      obtain ⟨middle', hconvert', hmiddle, hn⟩ := @convert_of_conversion mem nested
        reader (start + index) (buffMax - index) state hagrees (by omega) (by omega)
        (by omega) hright (specifier c) n' args hconversion
      cases hconvert.symm.trans hconvert'
      rw [← hmiddle.args_eq] at h
      exact @ih middle .text _ (Mode.At.advance hlt hword hn)
        (hlength.trans hmiddle.length_eq.symm) hmiddle.right h hloop
    | options =>
      have hlt : index < buffMax := hat
      rw [reading] at h
      rw [expandLoop] at hloop
      split at h
      · next hblank =>
        rw [if_pos hblank] at hloop
        exact @ih state .text index (.inl hlt.le) hlength hright h hloop
      next hoption =>
      rw [if_neg hoption] at hloop
      split at hloop
      · exact @ih state.setNolog .options index hlt hlength hright h hloop
      · exact @ih state .options index hlt hlength hright h hloop

theorem expandNested_agrees (mem : Memory) (depth : Nat) :
    Agrees (expandNested mem depth) (readFormat mem depth) := by
  induction depth with
  | zero =>
    refine ⟨?_, ?_, ?_⟩
    · rintro start room str state returned state' ⟨⟩
    · rintro start room str state returned rest - - - ⟨⟩
    · rintro start room str state returned state' - - - - ⟨⟩
  | succ depth ih =>
    have hat : ∀ room, Mode.At room 0 .text := fun room => Or.inl (Nat.zero_le room)
    refine ⟨fun h => expandLoop_grows ih h, ?_, ?_⟩
    · intro start room str state returned rest hword hlength hright h
      exact expandLoop_of_reading ih hword (hat room) hlength hright h
    · intro start room str state returned state' hword hlength hright h hloop
      exact expandLoop_of_none ih hword (hat room) hlength hright h hloop

end

end

section

variable {mem : Memory} {buff : Buffer} {format : CString} {args : List UInt32}

theorem expandPrintfFormatting_of_readable (h : Readable mem buff.bytes.length format args) :
    ∃ returned state, expandPrintfFormatting mem buff.bytes.length format.bytes
        ⟨buff.bytes, args, 0, []⟩ = .ok (returned, state) ∧
      state.buff.length = buff.bytes.length ∧ Returns buff.bytes.length returned ∧
        AllRight state.calls := by
  obtain ⟨⟨returned, rest⟩, hread⟩ := Option.isSome_iff_exists.mp h
  obtain ⟨state, hexpand, hleads, hreturns, -⟩ := @Agrees.of_some _ _
    (expandNested_agrees mem (args.length + 1)) 0 _ _ ⟨buff.bytes, args, 0, []⟩ returned rest
    buff.size_lt (zero_add _) (fun _ hcall => absurd hcall not_mem_nil) hread
  exact ⟨returned, state, hexpand, hleads.length_eq, hreturns, hleads.right⟩

theorem readable_of_expandPrintfFormatting {returned : Nat} {state : State}
    (hexpand : expandPrintfFormatting mem buff.bytes.length format.bytes
      ⟨buff.bytes, args, 0, []⟩ = .ok (returned, state))
    (hreturns : Returns buff.bytes.length returned) (hright : AllRight state.calls) :
    Readable mem buff.bytes.length format args := by
  cases hread : readFormat mem (args.length + 1) buff.bytes.length format.bytes args with
  | none =>
    exact absurd ⟨hreturns, hright⟩ (@Agrees.of_none _ _
      (expandNested_agrees mem (args.length + 1)) 0 _ _ ⟨buff.bytes, args, 0, []⟩ returned state
      buff.size_lt (zero_add _) (fun _ hcall => absurd hcall not_mem_nil) hread hexpand)
  | some result =>
    rw [Readable, hread]
    rfl

theorem toSarch_emod {word : Nat} (h : word < wordModulus) :
    (toSarch word % wordModulus).toNat = word := by
  rw [toSarch]
  simp only [wordModulus] at *
  split
  · omega
  · omega

theorem terminatorAt_lt {maxLength : Nat} {nPrinted : Int} (hpos : 0 < maxLength)
    (hsize : maxLength < wordModulus) (hnonneg : ¬nPrinted < 0) :
    (terminatorAt maxLength nPrinted % wordModulus).toNat < maxLength := by
  rw [terminatorAt]
  split
  · have hlast : (maxLength + wordModulus - 1) % wordModulus = maxLength - 1 := by
      rw [Nat.sub_add_comm hpos, Nat.add_mod_right, Nat.mod_eq_of_lt (by omega)]
    rw [hlast, toSarch_emod (by omega)]
    omega
  next hlt =>
  rw [toSarch] at hlt
  simp only [wordModulus] at *
  split at hlt
  · omega
  · omega

theorem snprintf_of_expand {returned : Nat} {state : State}
    (hexpand : expandPrintfFormatting mem buff.bytes.length format.bytes
      ⟨buff.bytes, args, 0, []⟩ = .ok (returned, state))
    (hlength : state.buff.length = buff.bytes.length) (hne : buff.bytes ≠ []) :
    ∃ result, snprintf mem buff.bytes format.bytes args = .ok result := by
  have hpos : 0 < buff.bytes.length := length_pos_of_ne_nil hne
  rw [snprintf]
  rw [hexpand]
  change ∃ result, (if toSarch returned < 0 then _ else _) = Except.ok result
  split
  · exact ⟨_, rfl⟩
  next hnonneg =>
  obtain ⟨buff', hstore, -⟩ := @exists_store state.buff
    (terminatorAt buff.bytes.length (toSarch returned) % wordModulus).toNat 0
    ((terminatorAt_lt hpos buff.size_lt hnonneg).trans_eq hlength.symm)
  rw [hstore]
  exact ⟨_, rfl⟩

theorem expandPrintfFormatting_empty (state : State) (str : List UInt8) :
    expandPrintfFormatting mem 0 str state = .ok (0, state) := by
  cases str with
  | nil => rfl
  | cons c str => rfl

theorem snprintf_empty (hempty : buff.bytes = []) (result : Int × List UInt8) :
    snprintf mem buff.bytes format.bytes args ≠ .ok result := by
  rw [hempty, snprintf]
  change (expandPrintfFormatting mem 0 format.bytes ⟨[], args, 0, []⟩ >>= _) ≠ _
  rw [expandPrintfFormatting_empty]
  rintro ⟨⟩

/-- The formatter and `snprintf` are right exactly on a buffer that is not empty and a format that
is in order. -/
theorem right_iff_readable (mem : Memory) (buff : Buffer) (format : CString) (args : List UInt32) :
    Right mem buff format args ↔ buff.bytes ≠ [] ∧ Readable mem buff.bytes.length format args := by
  constructor
  · rintro ⟨⟨returned, state, hexpand, hreturns, hright⟩, result, hsnprintf⟩
    refine ⟨fun hempty => snprintf_empty hempty result hsnprintf, ?_⟩
    exact readable_of_expandPrintfFormatting hexpand hreturns hright
  · rintro ⟨hne, hreadable⟩
    obtain ⟨returned, state, hexpand, hlength, hreturns, hright⟩ :=
      expandPrintfFormatting_of_readable hreadable
    exact ⟨⟨returned, state, hexpand, hreturns, hright⟩, snprintf_of_expand hexpand hlength hne⟩

def plainMemory : Memory :=
  ⟨fun _ => ⟨[], List.not_mem_nil⟩, fun _ => 0, 4⟩

theorem two_lt_wordModulus : ([0, 0] : List UInt8).length < wordModulus := by decide

def twoBytes : Buffer := ⟨[0, 0], two_lt_wordModulus⟩

theorem hexFormat_nul_free : (0 : UInt8) ∉ [percentSign, 0x78] := by decide

def hexFormat : CString := ⟨[percentSign, 0x78], hexFormat_nul_free⟩

/-- The leader of `%x` fills the two bytes, and the digit goes behind them. -/
theorem hexZeroInTwoBytes_not_right : ¬Right plainMemory twoBytes hexFormat [0] := by
  rintro ⟨⟨returned, state, hok, -⟩, -⟩
  cases hok

example : Readable plainMemory twoBytes.bytes.length hexFormat [7] := by
  unfold Readable
  decide

end

end Zambesii.DebugPipe
