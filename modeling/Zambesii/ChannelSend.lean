import Zambesii.ChannelLayout

/-!
`sChannelMsg::send`: a control block and the arguments of a channel operation are marshalled into
one message. Of the bytes that are copied, the model keeps where they are written.
-/

namespace Zambesii.ChannelSend

open ChannelLayout KernelTypes List

def sizeofChannelMsg : Nat := 88

def sizeofCb : Nat := 20

def sizeofMovableMemory : Nat := 8

def metalanguageMaxlen : Nat := 32

def errorNonConformant : Int := -6

def errorInvalidArg : Int := -10

def errorInvalidResourceName : Int := -13

def errorInvalidFormat : Int := -14

def errorMemoryNomem : Int := -20

def errorUnsupported : Int := -31

def errorUninitialized : Int := -32

def wrapStatus (value : Int) : Int :=
  value.bmod wordModulus

def asUnsigned (status : Int) : Nat :=
  (status % (wordModulus : Int)).toNat

/-- The `status_t`: of a layout that is not `NULL`, `ERROR_INVALID_FORMAT` is the only error. -/
def statusValue : Status → Int
  | .ok size => size
  | .error _ => errorInvalidFormat

/-- `zudi_layout_get_size`. There is room for every nesting of the layout. -/
def zudiLayoutGetSize (layout : List UInt8) (inlineElementsAllowed : Bool) : Option Int :=
  (getSize (layout.length + 1) layout inlineElementsAllowed).map statusValue

/-- What the pointer at an offset of the visible area points to: `none` is `NULL`, and else it is
`objectNBytes` of the header in front of the object. -/
abbrev Objects := Nat → Option Nat

/-- The `switch` of the walkers over inline elements: the size of the object, or nothing for an
element that is skipped. -/
def objectSize (drvTypedLayout : Option (List UInt8)) (object : Option Nat) (curr : UInt8)
    (rest : List UInt8) : Option (Option Int) :=
  if curr = dlInlineTyped then (zudiLayoutGetSize rest false).map some
  else if curr = dlMovableTyped then
    (zudiLayoutGetSize rest false).map fun size => some (wrapStatus (size + sizeofMovableMemory))
  else if curr = dlInlineDriverTyped then
    match drvTypedLayout with
    | none => some (some errorInvalidArg)
    | some layout => (zudiLayoutGetSize layout false).map some
  else if curr = dlMovableUntyped then
    match object with
    | none => some (some 0)
    | some objectNBytes => some (some (wrapStatus (objectNBytes + sizeofMovableMemory)))
  else some none

def totalLoop (drvTypedLayout : Option (List UInt8)) (srcCb : Objects) :
    Nat → List UInt8 → Nat → Int → Option Int
  | _, [], _, _ => none
  | 0, _, _, _ => none
  | fuel + 1, curr :: rest, ptrOffset, ret =>
    if curr = dlEnd then some ret
    else
      match zudiLayoutGetElementSize curr rest with
      | none => none
      | some (currElemSize, skipCount) =>
        if skipCount = 0 then some errorInvalidFormat
        else
          let ptrOffset := align ptrOffset currElemSize
          let next := totalLoop drvTypedLayout srcCb fuel ((curr :: rest).drop skipCount)
            ((ptrOffset + currElemSize) % wordModulus)
          match objectSize drvTypedLayout (srcCb ptrOffset) curr rest with
          | none => none
          | some none => next ret
          | some (some currLayoutSize) =>
            if currLayoutSize < 0 then some currLayoutSize
            else if (srcCb ptrOffset).isSome then next (wrapStatus (ret + currLayoutSize))
            else next ret

def getTotalMarshalSpaceInlineRequirements (layout : List UInt8)
    (drvTypedLayout : Option (List UInt8)) (srcCb : Objects) : Option Int :=
  totalLoop drvTypedLayout srcCb layout.length layout 0 0

inductive Part
  | controlBlock
  | visibleArea
  | stackArguments
  | inlineObjects
  | driverTypedLayout
deriving DecidableEq

/-- Bytes of a part that are written, `first` bytes after the address of the payload. -/
structure Write where
  part : Part
  first : Nat
  nBytes : Nat
deriving DecidableEq

def stackLoop (dest : Nat) : Nat → List UInt8 → Nat → Option (Int × List Write)
  | _, [], _ => none
  | 0, _, _ => none
  | fuel + 1, curr :: rest, offset =>
    if curr = dlEnd then some (0, [])
    else
      match zudiLayoutGetElementSize curr rest with
      | none => none
      | some (elemSize, skipCount) =>
        if skipCount = 0 then some (errorInvalidFormat, [])
        else if elemSize > 16 then some (errorUnsupported, [])
        else if elemSize ∈ [1, 2, 4, 8, 16] then
          let offset := align offset elemSize
          (stackLoop dest fuel ((curr :: rest).drop skipCount)
              ((offset + elemSize) % wordModulus)).map fun (status, writes) =>
            (status, ⟨.stackArguments, (dest + offset) % wordModulus, elemSize⟩ :: writes)
        else some (errorUnsupported, [])

def marshalStackArguments (dest : Nat) (layout : List UInt8) : Option (Int × List Write) :=
  stackLoop dest layout.length layout 0

def inlineLoop (drvTypedLayout : Option (List UInt8)) (srcCb : Objects) :
    Nat → List UInt8 → Nat → Nat → Option (Int × List Write)
  | _, [], _, _ => none
  | 0, _, _, _ => none
  | fuel + 1, curr :: rest, ptrOffset, dest =>
    if curr = dlEnd then some (0, [])
    else
      match zudiLayoutGetElementSize curr rest with
      | none => none
      | some (currElemSize, skipCount) =>
        if skipCount = 0 then some (errorInvalidFormat, [])
        else
          let ptrOffset := align ptrOffset currElemSize
          let next := inlineLoop drvTypedLayout srcCb fuel ((curr :: rest).drop skipCount)
            ((ptrOffset + currElemSize) % wordModulus)
          let pointer : Write := ⟨.visibleArea, (sizeofCb + ptrOffset) % wordModulus, 4⟩
          match objectSize drvTypedLayout (srcCb ptrOffset) curr rest with
          | none => none
          | some none => next dest
          | some (some currObjectSize) =>
            if (srcCb ptrOffset).isSome then
              let nBytes := asUnsigned currObjectSize
              (next ((dest + nBytes) % wordModulus)).map fun (status, writes) =>
                (status, ⟨.inlineObjects, dest, nBytes⟩ :: pointer :: writes)
            else (next dest).map fun (status, writes) => (status, pointer :: writes)

def marshalInlineObjects (dest : Nat) (srcCb : Objects) (layout : List UInt8)
    (drvTypedLayout : Option (List UInt8)) : Option (Int × List Write) :=
  inlineLoop drvTypedLayout srcCb layout.length layout 0 dest

structure Layouts where
  visible : Option (List UInt8)
  marshal : Option (List UInt8)
  inline : Option (List UInt8)
deriving DecidableEq

structure Request where
  gcb : Option Objects
  layouts : Option Layouts
  metaName : Option (List UInt8)
  metaOpsNum : UInt8
  opsIdx : UInt8
  privateData : Nat

structure Endpoint where
  isAnchored : Bool
  threadFound : Bool
  queueAnswer : Int
deriving DecidableEq

/-- `Endpoint::send`: the other end enqueues the message. -/
def Endpoint.send (endp : Endpoint) : Int :=
  if endp.isAnchored = false then errorUninitialized
  else if endp.threadFound = false then errorInvalidResourceName
  else endp.queueAnswer

/-- `sChannelMsg`, with the bytes that are allocated for it and what is written after it. -/
structure ChannelMsg where
  allocated : Nat
  writes : List Write
  headerSize : Nat
  privateData : Nat
  metaName : List UInt8
  metaOpsNum : UInt8
  opsIndex : UInt8
  dtypedLayoutNElements : Nat
  msgDtypedLayoutOff : Nat
deriving DecidableEq

/-- What `send` returns, and the message that is allocated then. -/
structure Outcome where
  answer : Int
  message : Option ChannelMsg
  enqueued : Bool
deriving DecidableEq

def Outcome.refused (answer : Int) : Outcome := ⟨answer, none, false⟩

/-- The sizes that `send` asks the walkers for. -/
structure Sizes where
  visibleSize : Int
  marshalSize : Int
  inlineSize : Int
  inlineLayoutNElems : Int
deriving DecidableEq

def nElemsStatus : Except Kerror Nat → Int
  | .ok count => count
  | .error _ => errorNonConformant

def layoutNElems : Option (List UInt8) → Option Int
  | none => some 0
  | some layout => (getLayoutNElements layout false).map nElemsStatus

def getSizes (gcb : Objects) (visible marshal : List UInt8) (inline : Option (List UInt8)) :
    Option Sizes := do
  let visibleSize ← zudiLayoutGetSize visible true
  let marshalSize ← zudiLayoutGetSize marshal false
  let inlineSize ← getTotalMarshalSpaceInlineRequirements visible inline gcb
  let inlineLayoutNElems ← layoutNElems inline
  return ⟨visibleSize, marshalSize, inlineSize, inlineLayoutNElems⟩

def Sizes.areInvalid (sizes : Sizes) : Bool :=
  decide (sizes.visibleSize < 0) || decide (sizes.marshalSize < 0) || decide (sizes.inlineSize < 0)

def Sizes.layoutFirst (sizes : Sizes) : Nat :=
  asUnsigned (sizeofCb + sizes.visibleSize + sizes.marshalSize + sizes.inlineSize)

/-- The size of the payload, as it is computed for the allocation and again for the header. -/
def Sizes.payload (sizes : Sizes) : Nat :=
  asUnsigned (sizeofCb + sizes.visibleSize + sizes.marshalSize + sizes.inlineSize +
    sizes.inlineLayoutNElems)

def setPayloadSize (dataSize : Nat) : Nat :=
  sizeofChannelMsg + dataSize % 2 ^ 16

/-- `set`: `strncpy8` into an array that is ended with a zero. -/
def setMetaName (metaName : List UInt8) : List UInt8 :=
  (metaName.takeWhile (· ≠ 0)).take (metalanguageMaxlen - 1)

def newMsg (request : Request) (sizes : Sizes) : ChannelMsg where
  allocated := (sizeofChannelMsg + sizes.payload) % wordModulus
  writes := [⟨.controlBlock, 0, sizeofCb⟩, ⟨.visibleArea, sizeofCb, asUnsigned sizes.visibleSize⟩]
  headerSize := sizeofChannelMsg
  privateData := request.privateData
  metaName := []
  metaOpsNum := 0
  opsIndex := 0
  dtypedLayoutNElements := 0
  msgDtypedLayoutOff := 0

def ChannelMsg.write (msg : ChannelMsg) (writes : List Write) : ChannelMsg :=
  { msg with writes := msg.writes ++ writes }

def ChannelMsg.copyLayout (msg : ChannelMsg) (sizes : Sizes) : Option (List UInt8) → ChannelMsg
  | none => msg
  | some _ =>
    let nBytes := asUnsigned sizes.inlineLayoutNElems
    { msg.write [⟨.driverTypedLayout, sizes.layoutFirst, nBytes⟩] with
      dtypedLayoutNElements := nBytes % 2 ^ 16
      msgDtypedLayoutOff := (sizeofChannelMsg + sizes.layoutFirst) % wordModulus }

def ChannelMsg.finish (msg : ChannelMsg) (request : Request) (sizes : Sizes)
    (metaName : List UInt8) : ChannelMsg :=
  { msg with
    metaName := setMetaName metaName
    metaOpsNum := request.metaOpsNum
    opsIndex := request.opsIdx
    headerSize := setPayloadSize sizes.payload }

def sendMsg (endp : Endpoint) (request : Request) (gcb : Objects) (visible marshal : List UInt8)
    (inline : Option (List UInt8)) (metaName : List UInt8) (sizes : Sizes) : Option Outcome :=
  match marshalStackArguments (asUnsigned (sizeofCb + sizes.visibleSize)) marshal with
  | none => none
  | some (status, arguments) =>
    let msg := (newMsg request sizes).write arguments
    if status < 0 then some ⟨status, some msg, false⟩
    else
      match marshalInlineObjects (asUnsigned (sizeofCb + sizes.visibleSize + sizes.marshalSize))
        gcb visible inline with
      | none => none
      | some (status, objects) =>
        let msg := msg.write objects
        if status < 0 then some ⟨status, some msg, false⟩
        else
          let msg := (msg.copyLayout sizes inline).finish request sizes metaName
          some ⟨endp.send, some msg, decide (endp.send = 0)⟩

/-- `send` after its arguments are checked. -/
def sendChecked (memory : Bool) (endp : Endpoint) (request : Request) (gcb : Objects)
    (visible marshal : List UInt8) (inline : Option (List UInt8)) (metaName : List UInt8) :
    Option Outcome :=
  match getSizes gcb visible marshal inline with
  | none => none
  | some sizes =>
    if sizes.areInvalid then some (.refused errorInvalidFormat)
    else if memory = false then some (.refused errorMemoryNomem)
    else sendMsg endp request gcb visible marshal inline metaName sizes

/-- `memory` is false when there is none for the message. -/
def send (memory : Bool) (endp : Endpoint) (request : Request) : Option Outcome :=
  match request.gcb, request.metaName with
  | some gcb, some metaName =>
    if request.metaOpsNum = 0 then some (.refused errorInvalidArg)
    else
      match request.layouts with
      | some ⟨some visible, some marshal, inline⟩ =>
        sendChecked memory endp request gcb visible marshal inline metaName
      | _ => some (.refused errorNonConformant)
  | _, _ => some (.refused errorInvalidArg)

structure Item where
  code : UInt8
  rest : List UInt8
  size : Nat
deriving DecidableEq

def items : Nat → List UInt8 → Option (List Item)
  | _, [] => none
  | 0, _ => none
  | fuel + 1, curr :: rest =>
    if curr = dlEnd then some []
    else
      match zudiLayoutGetElementSize curr rest with
      | none => none
      | some (size, skipCount) =>
        if size = 0 ∨ skipCount = 0 then none
        else (items fuel ((curr :: rest).drop skipCount)).map (⟨curr, rest, size⟩ :: ·)

def layoutItems (layout : List UInt8) : Option (List Item) :=
  items layout.length layout

/-- The place of an element after `offset` bytes. -/
def Item.place (item : Item) (offset : Nat) : Nat :=
  roundUp offset (min item.size 4)

/-- The end of the elements after `offset` bytes. -/
def endFrom : Nat → List Item → Nat
  | offset, [] => offset
  | offset, item :: rest => endFrom (item.place offset + item.size) rest

def Item.objectBytes (item : Item) (drvTypedLayout : Option (List UInt8)) (object : Option Nat) :
    Nat :=
  match object, objectSize drvTypedLayout object item.code item.rest with
  | some _, some (some size) => size.toNat
  | _, _ => 0

/-- The bytes of the inline objects of elements after `offset` bytes. -/
def objectsFrom (drvTypedLayout : Option (List UInt8)) (srcCb : Objects) : Nat → List Item → Nat
  | _, [] => 0
  | offset, item :: rest =>
    item.objectBytes drvTypedLayout (srcCb (item.place offset)) +
      objectsFrom drvTypedLayout srcCb (item.place offset + item.size) rest

structure Parts where
  visible : Nat
  marshal : Nat
  inline : Nat
  layout : Nat
deriving DecidableEq

def Parts.nBytes (parts : Parts) : Part → Nat
  | .controlBlock => sizeofCb
  | .visibleArea => parts.visible
  | .stackArguments => parts.marshal
  | .inlineObjects => parts.inline
  | .driverTypedLayout => parts.layout

def Parts.first (parts : Parts) : Part → Nat
  | .controlBlock => 0
  | .visibleArea => sizeofCb
  | .stackArguments => sizeofCb + parts.visible
  | .inlineObjects => sizeofCb + parts.visible + parts.marshal
  | .driverTypedLayout => sizeofCb + parts.visible + parts.marshal + parts.inline

def Parts.total (parts : Parts) : Nat :=
  sizeofCb + parts.visible + parts.marshal + parts.inline + parts.layout

def layoutBytes : Option (List UInt8) → Option Nat
  | none => some 0
  | some layout =>
    match getLayoutNElements layout false with
    | some (.ok count) => some count
    | _ => none

def partsOf (gcb : Objects) (visible marshal : List UInt8) (inline : Option (List UInt8)) :
    Option Parts :=
  match layoutItems visible, layoutItems marshal, layoutBytes inline with
  | some visibleItems, some marshalItems, some layout =>
    some ⟨roundUp (endFrom 0 visibleItems) 4, roundUp (endFrom 0 marshalItems) 4,
      objectsFrom inline gcb 0 visibleItems, layout⟩
  | _, _, _ => none

def Request.parts (request : Request) : Option Parts :=
  match request.gcb, request.layouts with
  | some gcb, some ⟨some visible, some marshal, inline⟩ => partsOf gcb visible marshal inline
  | _, _ => none

def Consecutive : Nat → List Write → Nat → Prop
  | first, [], last => first = last
  | first, write :: rest, last => write.first = first ∧ Consecutive (first + write.nBytes) rest last

structure Placed (msg : ChannelMsg) (parts : Parts) : Prop where
  allocated : msg.allocated = sizeofChannelMsg + parts.total
  headerSize : msg.headerSize = sizeofChannelMsg + parts.total
  within : ∀ write ∈ msg.writes, parts.first write.part ≤ write.first ∧
    write.first + write.nBytes ≤ parts.first write.part + parts.nBytes write.part
  copied : ∀ part ∈ [Part.controlBlock, .visibleArea, .driverTypedLayout],
    parts.nBytes part ≠ 0 → ⟨part, parts.first part, parts.nBytes part⟩ ∈ msg.writes
  arguments : (msg.writes.filter (·.part = .stackArguments)).Pairwise fun write next =>
    write.first + write.nBytes ≤ next.first
  objects : Consecutive (parts.first .inlineObjects)
    (msg.writes.filter (·.part = .inlineObjects)) (parts.first .driverTypedLayout)

def Right (request : Request) (outcome : Outcome) : Prop :=
  (outcome.enqueued = true → ∃ msg parts, outcome.message = some msg ∧
      request.parts = some parts ∧ Placed msg parts) ∧
    (outcome.answer ≠ 0 → outcome.message = none)

/-- An argument is missing, or a walker has found an error that `send` looks at. -/
def Request.isRefused (request : Request) : Bool :=
  match request.gcb, request.metaName with
  | some gcb, some _ =>
    decide (request.metaOpsNum = 0) ||
      match request.layouts with
      | some ⟨some visible, some marshal, inline⟩ =>
        (getSizes gcb visible marshal inline).any Sizes.areInvalid
      | _ => true
  | _, _ => true

/-- The sizes of arguments that `marshalStackArguments` can take from the stack. -/
def Request.argumentsSupported (request : Request) : Bool :=
  match request.layouts with
  | some ⟨_, some marshal, _⟩ =>
    ((layoutItems marshal).getD []).all fun item => decide (item.size ∈ [1, 2, 4, 8, 16])
  | _ => true

def Meets (memory : Bool) (endp : Endpoint) (request : Request) : Prop :=
  request.isRefused = true ∨ memory = false ∨
    ((∃ parts ∈ request.parts, parts.total < 2 ^ 16) ∧ request.argumentsSupported = true ∧
      endp.send = 0)

section

variable {layout rest : List UInt8}

theorem getElementSize_congr {getSize getSize' : List UInt8 → Option Status}
    (h : ∀ nested, nested.length < rest.length → getSize nested = getSize' nested)
    (element : UInt8) :
    getElementSize getSize element rest = getElementSize getSize' element rest := by
  unfold getElementSize
  cases rest with
  | nil => rfl
  | cons nElements curr =>
    dsimp only
    rw [h curr (by simp)]

theorem sizeLoop_congr {elementSize elementSize' : UInt8 → List UInt8 → Option (Nat × Nat)}
    {fuel ret : Nat} (h : ∀ curr rest, rest.length < layout.length →
      elementSize curr rest = elementSize' curr rest) :
    sizeLoop elementSize fuel layout ret = sizeLoop elementSize' fuel layout ret := by
  induction fuel generalizing layout ret with
  | zero =>
    cases layout with
    | nil => rfl
    | cons curr rest => rfl
  | succ fuel ih =>
    cases layout with
    | nil => rfl
    | cons curr rest =>
      unfold sizeLoop
      rw [h curr rest (by simp)]
      split
      · rfl
      split
      · rfl
      split
      · rfl
      refine ih ?_
      intro curr' rest' hlt
      refine h curr' rest' (lt_of_lt_of_le hlt ?_)
      rw [length_drop]
      exact Nat.sub_le _ _

theorem getSize_depth {depth depth' : Nat} (h : layout.length < depth) (h' : layout.length < depth')
    (inlineElementsAllowed : Bool) :
    getSize depth layout inlineElementsAllowed = getSize depth' layout inlineElementsAllowed := by
  induction hlength : layout.length using Nat.strong_induction_on
    generalizing layout depth depth' inlineElementsAllowed with
  | _ length ih =>
    obtain ⟨depth, rfl⟩ := Nat.exists_eq_succ_of_ne_zero (ne_zero_of_lt h)
    obtain ⟨depth', rfl⟩ := Nat.exists_eq_succ_of_ne_zero (ne_zero_of_lt h')
    have hloop : sizeLoop (getElementSize fun nested => getSize depth nested false)
        layout.length layout 0 =
          sizeLoop (getElementSize fun nested => getSize depth' nested false)
            layout.length layout 0 := by
      refine sizeLoop_congr ?_
      intro curr rest hrest
      refine getElementSize_congr ?_ curr
      intro nested hnested
      exact ih nested.length (by omega) (by omega) (by omega) false rfl
    unfold getSize
    rw [hloop]

theorem getSize_eq (layout : List UInt8) (inlineElementsAllowed : Bool) {size : Int}
    (h : getSize (layout.length + 1) layout inlineElementsAllowed = some (.ok size)) :
    ∃ ret tail, sizeLoop zudiLayoutGetElementSize layout.length layout 0 =
      some (.ok (ret, tail)) ∧ size = asSigned (align ret 4) := by
  have hloop : sizeLoop (getElementSize fun nested => getSize layout.length nested false)
      layout.length layout 0 = sizeLoop zudiLayoutGetElementSize layout.length layout 0 := by
    refine sizeLoop_congr ?_
    intro curr rest hrest
    refine getElementSize_congr ?_ curr
    intro nested hnested
    exact getSize_depth (by omega) hnested false
  unfold getSize at h
  rw [hloop] at h
  dsimp only at h
  cases hwalk : sizeLoop zudiLayoutGetElementSize layout.length layout 0 with
  | none =>
    rw [hwalk] at h
    split at h
    · cases h
    · split at h <;> cases h
  | some result =>
    rw [hwalk] at h
    cases result with
    | error error =>
      split at h
      · cases h
      · split at h <;> cases h
    | ok result =>
      refine ⟨result.1, result.2, rfl, ?_⟩
      split at h
      · cases h
        rfl
      split at h
      · cases h
      · cases h
      · cases h
        rfl

end

section

inductive Walk : Nat → List UInt8 → List Item → Prop
  | done (fuel : Nat) (tail : List UInt8) : Walk (fuel + 1) (dlEnd :: tail) []
  | next {fuel : Nat} {code : UInt8} {rest : List UInt8} {size skipCount : Nat} {its : List Item} :
      code ≠ dlEnd → zudiLayoutGetElementSize code rest = some (size, skipCount) → size ≠ 0 →
        skipCount ≠ 0 → Walk fuel ((code :: rest).drop skipCount) its →
          Walk (fuel + 1) (code :: rest) (⟨code, rest, size⟩ :: its)

variable {fuel : Nat} {layout : List UInt8} {its : List Item}

theorem Walk.items_eq (h : Walk fuel layout its) : items fuel layout = some its := by
  induction h with
  | done fuel tail => simp [items]
  | next hcode hsize hpos hskip hwalk ih => simp [items, hcode, hsize, hpos, hskip, ih]

theorem align_def (offset size : Nat) :
    align offset size = if offset % min size 4 = 0 then offset
      else (offset + min size 4) % wordModulus / min size 4 * min size 4 := by
  unfold align
  rcases lt_or_ge 4 size with hlarge | hsmall
  · rw [if_pos hlarge, min_eq_right hlarge.le]
  · simp only [if_neg (not_lt.mpr hsmall), gt_iff_lt, min_eq_left hsmall]

theorem min_cases {size : Nat} (hsize : size ≠ 0) :
    min size 4 = 1 ∨ min size 4 = 2 ∨ min size 4 = 3 ∨ min size 4 = 4 := by
  omega

theorem align_eq {offset size : Nat} (hsize : size ≠ 0)
    (hlt : roundUp offset (min size 4) + size < wordModulus) :
    align offset size = roundUp offset (min size 4) := by
  have hle : min size 4 ≤ size := min_le_left _ _
  have hsum : offset + min size 4 < wordModulus := by
    refine lt_of_le_of_lt ?_ hlt
    unfold roundUp
    rcases min_cases hsize with heq | heq | heq | heq <;> rw [heq] at hle ⊢ <;> omega
  rw [align_def, Nat.mod_eq_of_lt hsum]
  unfold roundUp
  rcases min_cases hsize with heq | heq | heq | heq <;> rw [heq] <;> split <;> omega

theorem Item.place_bounds (item : Item) (hsize : item.size ≠ 0) (offset : Nat) :
    offset ≤ item.place offset ∧ item.place offset < offset + min item.size 4 := by
  unfold Item.place roundUp
  rcases min_cases hsize with heq | heq | heq | heq <;> rw [heq] <;> omega

theorem Walk.le_endFrom (h : Walk fuel layout its) (offset : Nat) :
    offset ≤ endFrom offset its := by
  induction h generalizing offset with
  | done fuel tail => exact le_rfl
  | @next fuel code rest size skipCount its hcode hsize hpos hskip hwalk ih =>
    have hplace := Item.place_bounds ⟨code, rest, size⟩ hpos offset
    exact le_trans (by dsimp only at hplace; omega) (ih _)

theorem Walk.step {code : UInt8} {rest : List UInt8} {size : Nat} {offset skipCount : Nat}
    (hpos : size ≠ 0) (h : Walk fuel ((code :: rest).drop skipCount) its)
    (hend : endFrom offset (⟨code, rest, size⟩ :: its) < wordModulus) :
    align offset size = Item.place ⟨code, rest, size⟩ offset ∧
      (Item.place ⟨code, rest, size⟩ offset + size) % wordModulus =
        Item.place ⟨code, rest, size⟩ offset + size ∧
      Item.place ⟨code, rest, size⟩ offset + size ≤ endFrom offset (⟨code, rest, size⟩ :: its) := by
  have hle := h.le_endFrom (Item.place ⟨code, rest, size⟩ offset + size)
  change endFrom (Item.place ⟨code, rest, size⟩ offset + size) its < wordModulus at hend
  exact ⟨align_eq hpos (lt_of_le_of_lt hle hend), Nat.mod_eq_of_lt (by omega), hle⟩

theorem walk_of_sizeLoop {ret out : Nat} {tail : List UInt8}
    (h : sizeLoop zudiLayoutGetElementSize fuel layout ret = some (.ok (out, tail))) :
    ∃ its, Walk fuel layout its ∧ (endFrom ret its < wordModulus → out = endFrom ret its) := by
  induction fuel generalizing layout ret with
  | zero =>
    cases layout with
    | nil => cases h
    | cons curr rest => cases h
  | succ fuel ih =>
    cases layout with
    | nil => cases h
    | cons curr rest =>
      unfold sizeLoop at h
      split at h
      · next hcurr =>
        cases h
        rw [hcurr]
        exact ⟨[], .done fuel rest, fun _ => rfl⟩
      next hcurr =>
      split at h
      · cases h
      next size skipCount hsize =>
      split at h
      · cases h
      next hvalid =>
      obtain ⟨hpos, hskip⟩ := not_or.mp hvalid
      obtain ⟨its, hwalk, hout⟩ := ih h
      refine ⟨⟨curr, rest, size⟩ :: its, .next hcurr hsize hpos hskip hwalk, ?_⟩
      intro hend
      obtain ⟨halign, hmod, -⟩ := hwalk.step hpos hend
      rw [halign, hmod] at hout
      exact hout hend

theorem walk_of_getSize {inlineElementsAllowed : Bool} {size : Int}
    (h : zudiLayoutGetSize layout inlineElementsAllowed = some size) (hsize : 0 ≤ size) :
    ∃ its, Walk layout.length layout its ∧
      (endFrom 0 its < 2 ^ 16 → size = roundUp (endFrom 0 its) 4) := by
  obtain ⟨status, hstatus, rfl⟩ := Option.map_eq_some_iff.mp h
  cases status with
  | error error => exact absurd hsize (by simp [statusValue, errorInvalidFormat])
  | ok size =>
    obtain ⟨ret, tail, hloop, hret⟩ := getSize_eq layout inlineElementsAllowed hstatus
    obtain ⟨its, hwalk, hout⟩ := walk_of_sizeLoop hloop
    refine ⟨its, hwalk, ?_⟩
    intro hend
    have heq : ret = endFrom 0 its := hout (lt_trans hend (by decide))
    have hround : roundUp (endFrom 0 its) 4 < 2 ^ 17 := by
      unfold roundUp
      omega
    have halign : align ret 4 = roundUp (endFrom 0 its) 4 := by
      rw [heq]
      exact align_eq (by decide) (lt_trans (Nat.add_lt_add_right hround 4) (by decide))
    change size = _
    rw [hret, halign, asSigned, if_pos (lt_trans hround (by decide))]

section

variable {dest offset : Nat}

theorem Walk.stackLoop_eq (h : Walk fuel layout its)
    (hsizes : ∀ item ∈ its, item.size ∈ [1, 2, 4, 8, 16])
    (hend : dest + endFrom offset its < wordModulus) :
    ∃ writes, stackLoop dest fuel layout offset = some (0, writes) ∧
      (∀ write ∈ writes, write.part = .stackArguments ∧ dest + offset ≤ write.first ∧
        write.first + write.nBytes ≤ dest + endFrom offset its) ∧
      writes.Pairwise fun write next => write.first + write.nBytes ≤ next.first := by
  induction h generalizing offset with
  | done fuel tail => exact ⟨[], by simp [stackLoop], by simp, .nil⟩
  | @next fuel code rest size skipCount its hcode hsize hpos hskip hwalk ih =>
    obtain ⟨halign, hmod, hle⟩ := hwalk.step hpos (lt_of_le_of_lt (Nat.le_add_left _ _) hend)
    have hplace := Item.place_bounds ⟨code, rest, size⟩ hpos offset
    have hmem : size ∈ [1, 2, 4, 8, 16] := hsizes ⟨code, rest, size⟩ (by simp)
    have hsmall : ¬ size > 16 := by
      simp only [mem_cons, not_mem_nil, or_false] at hmem
      omega
    obtain ⟨writes, heq, hwithin, hpairwise⟩ := @ih
      (Item.place ⟨code, rest, size⟩ offset + size)
      (fun item hitem => hsizes item (by simp [hitem])) hend
    have hfirst : (dest + Item.place ⟨code, rest, size⟩ offset) % wordModulus =
        dest + Item.place ⟨code, rest, size⟩ offset := by
      exact Nat.mod_eq_of_lt (by omega)
    refine ⟨⟨.stackArguments, dest + Item.place ⟨code, rest, size⟩ offset, size⟩ :: writes,
      ?_, ?_, pairwise_cons.mpr ⟨?_, hpairwise⟩⟩
    · unfold stackLoop
      simp only [if_neg hcode, hsize, if_neg hskip, if_neg hsmall, if_pos hmem, halign, hmod, heq,
        hfirst, Option.map_some]
    · intro write hwrite
      rcases mem_cons.mp hwrite with rfl | hwrite
      · refine ⟨rfl, ?_, ?_⟩
        · dsimp only
          omega
        · dsimp only
          omega
      · obtain ⟨hpart, hlow, hhigh⟩ := hwithin write hwrite
        refine ⟨hpart, ?_, hhigh⟩
        omega
    · intro write hwrite
      have := (hwithin write hwrite).2.1
      dsimp only
      omega

theorem Walk.stackLoop_fails (h : Walk fuel layout its)
    (hsizes : ¬ ∀ item ∈ its, item.size ∈ [1, 2, 4, 8, 16]) :
    ∃ status writes, stackLoop dest fuel layout offset = some (status, writes) ∧ status < 0 := by
  induction h generalizing offset with
  | done fuel tail => exact absurd (by simp) hsizes
  | @next fuel code rest size skipCount its hcode hsize hpos hskip hwalk ih =>
    unfold stackLoop
    simp only [if_neg hcode, hsize, if_neg hskip]
    split
    · exact ⟨_, _, rfl, by decide⟩
    split
    · next hmem =>
      have hrest : ¬ ∀ item ∈ its, item.size ∈ [1, 2, 4, 8, 16] := by
        intro hall
        refine hsizes (forall_mem_cons.mpr ⟨hmem, hall⟩)
      obtain ⟨status, writes, heq, hneg⟩ :=
        @ih ((align offset size + size) % wordModulus) hrest
      rw [heq]
      exact ⟨status, _, rfl, hneg⟩
    · exact ⟨_, _, rfl, by decide⟩

end

section

variable {drvTypedLayout : Option (List UInt8)} {srcCb : Objects} {dest offset : Nat}

def ObjectsOk (drvTypedLayout : Option (List UInt8)) (srcCb : Objects) : Nat → List Item → Prop
  | _, [] => True
  | offset, item :: rest =>
    (∃ size, objectSize drvTypedLayout (srcCb (item.place offset)) item.code item.rest =
        some size ∧ ∀ nBytes ∈ size, 0 ≤ nBytes) ∧
      ObjectsOk drvTypedLayout srcCb (item.place offset + item.size) rest

theorem wrapStatus_eq {value : Int} (hpos : 0 ≤ value) (hlt : value < 2 ^ 31) :
    wrapStatus value = value := by
  exact Int.bmod_eq_of_le (by omega) (by simp [wordModulus]; omega)

theorem Item.objectBytes_null (item : Item) : item.objectBytes drvTypedLayout none = 0 :=
  rfl

variable {object : Option Nat}

theorem Item.objectBytes_skipped {item : Item}
    (h : objectSize drvTypedLayout object item.code item.rest = some none) :
    item.objectBytes drvTypedLayout object = 0 := by
  unfold Item.objectBytes
  rw [h]
  cases object with
  | none => rfl
  | some objectNBytes => rfl

theorem Item.objectBytes_eq {item : Item} {nBytes : Int}
    (h : objectSize drvTypedLayout object item.code item.rest = some (some nBytes))
    (hobject : object.isSome = true) : item.objectBytes drvTypedLayout object = nBytes.toNat := by
  unfold Item.objectBytes
  rw [h]
  cases object with
  | none => cases hobject
  | some objectNBytes => rfl

theorem Walk.totalLoop_eq (h : Walk fuel layout its) {ret total : Int}
    (hend : endFrom offset its < wordModulus)
    (htotal : totalLoop drvTypedLayout srcCb fuel layout offset ret = some total)
    (hpos : 0 ≤ total) (hret : 0 ≤ ret)
    (hsum : ret + objectsFrom drvTypedLayout srcCb offset its < 2 ^ 31) :
    total = ret + objectsFrom drvTypedLayout srcCb offset its ∧
      ObjectsOk drvTypedLayout srcCb offset its := by
  induction h generalizing offset ret with
  | done fuel tail =>
    cases htotal
    simp [objectsFrom, ObjectsOk]
  | @next fuel code rest size skipCount its hcode hsize hsizePos hskip hwalk ih =>
    obtain ⟨halign, hmod, hle⟩ := hwalk.step hsizePos hend
    unfold totalLoop at htotal
    simp only [if_neg hcode, hsize, if_neg hskip, halign, hmod] at htotal
    unfold objectsFrom at hsum ⊢
    unfold ObjectsOk
    dsimp only at hsum ⊢
    set place := Item.place ⟨code, rest, size⟩ offset with hplace
    have hend' : endFrom (place + size) its < wordModulus := hend
    cases hobject : objectSize drvTypedLayout (srcCb place) code rest with
    | none =>
      rw [hobject] at htotal
      cases htotal
    | some answer =>
      rw [hobject] at htotal
      cases answer with
      | none =>
        rw [Item.objectBytes_skipped hobject] at hsum ⊢
        obtain ⟨heq, hok⟩ := ih hend' htotal hret (by omega)
        exact ⟨by omega, ⟨none, rfl, by simp⟩, hok⟩
      | some nBytes =>
        dsimp only at htotal
        split at htotal
        · cases htotal
          omega
        next hnonneg =>
        have hnBytes : ∀ n ∈ (some nBytes : Option Int), 0 ≤ n := by
          rintro n ⟨rfl⟩
          omega
        split at htotal
        · next hsome =>
          rw [Item.objectBytes_eq hobject hsome] at hsum ⊢
          rw [wrapStatus_eq (by omega) (by omega)] at htotal
          obtain ⟨heq, hok⟩ := ih hend' htotal (by omega) (by omega)
          exact ⟨by omega, ⟨some nBytes, rfl, hnBytes⟩, hok⟩
        · next hnull =>
          rw [Option.not_isSome_iff_eq_none] at hnull
          rw [hnull, Item.objectBytes_null] at hsum ⊢
          obtain ⟨heq, hok⟩ := ih hend' htotal hret (by omega)
          exact ⟨by omega, ⟨some nBytes, rfl, hnBytes⟩, hok⟩

theorem getElementSize_nested {code : UInt8} {rest : List UInt8} {size skipCount : Nat}
    (hcode : code = dlInlineTyped ∨ code = dlMovableTyped)
    (h : zudiLayoutGetElementSize code rest = some (size, skipCount)) : size = 4 := by
  have hnested : zudiLayoutGetElementSize code rest =
      (countToEnd rest).map fun count => (4, 2 + count) := by
    rcases hcode with rfl | rfl
    · rfl
    · rfl
  rw [hnested] at h
  obtain ⟨count, -, heq⟩ := Option.map_eq_some_iff.mp h
  exact (Prod.mk.inj heq).1.symm

theorem size_of_objectSize {code : UInt8} {rest : List UInt8} {nBytes : Int} {size skipCount : Nat}
    (hobject : objectSize drvTypedLayout object code rest = some (some nBytes))
    (h : zudiLayoutGetElementSize code rest = some (size, skipCount)) : size = 4 := by
  unfold objectSize at hobject
  split at hobject
  · next hcode => exact getElementSize_nested (.inl hcode) h
  split at hobject
  · next hcode => exact getElementSize_nested (.inr hcode) h
  split at hobject
  · next hcode =>
    subst hcode
    cases h
    rfl
  split at hobject
  · next hcode =>
    subst hcode
    cases h
    rfl
  · cases hobject

theorem asUnsigned_eq {status : Int} (hpos : 0 ≤ status) (hlt : status < wordModulus) :
    asUnsigned status = status.toNat := by
  unfold asUnsigned
  rw [Int.emod_eq_of_lt hpos hlt]

def InlineWrite (first firstEnd dest destEnd : Nat) (write : Write) : Prop :=
  (write.part = .visibleArea ∧ sizeofCb + first ≤ write.first ∧
      write.first + write.nBytes ≤ sizeofCb + firstEnd) ∨
    (write.part = .inlineObjects ∧ dest ≤ write.first ∧ write.first + write.nBytes ≤ destEnd)

theorem InlineWrite.mono {first first' firstEnd dest' destEnd : Nat} {write : Write}
    (h : InlineWrite first' firstEnd dest' destEnd write) (hfirst : first ≤ first')
    (hdest : dest ≤ dest') : InlineWrite first firstEnd dest destEnd write := by
  rcases h with ⟨hpart, hlow, hhigh⟩ | ⟨hpart, hlow, hhigh⟩
  · exact .inl ⟨hpart, by omega, hhigh⟩
  · exact .inr ⟨hpart, by omega, hhigh⟩

theorem Walk.inlineLoop_eq (h : Walk fuel layout its)
    (hok : ObjectsOk drvTypedLayout srcCb offset its)
    (hend : sizeofCb + endFrom offset its < wordModulus)
    (hdest : dest + objectsFrom drvTypedLayout srcCb offset its < wordModulus) :
    ∃ writes, inlineLoop drvTypedLayout srcCb fuel layout offset dest = some (0, writes) ∧
      (∀ write ∈ writes, InlineWrite offset (endFrom offset its) dest
        (dest + objectsFrom drvTypedLayout srcCb offset its) write) ∧
      Consecutive dest (writes.filter (·.part = .inlineObjects))
        (dest + objectsFrom drvTypedLayout srcCb offset its) := by
  induction h generalizing offset dest with
  | done fuel tail => exact ⟨[], by simp [inlineLoop], by simp, rfl⟩
  | @next fuel code rest size skipCount its hcode hsize hsizePos hskip hwalk ih =>
    obtain ⟨halign, hmod, hle⟩ := hwalk.step hsizePos (lt_of_le_of_lt (Nat.le_add_left _ _) hend)
    have hbounds := Item.place_bounds ⟨code, rest, size⟩ hsizePos offset
    obtain ⟨⟨answer, hobject, hnonneg⟩, hrest⟩ := hok
    unfold objectsFrom at hdest ⊢
    unfold inlineLoop
    simp only [if_neg hcode, hsize, if_neg hskip, halign, hmod]
    set place := Item.place ⟨code, rest, size⟩ offset with hplace
    have hend' := hend
    have hfirst : (sizeofCb + place) % wordModulus = sizeofCb + place :=
      Nat.mod_eq_of_lt (by omega)
    have hafter : place + size ≤ endFrom (place + size) its := hwalk.le_endFrom _
    rw [hobject]
    cases answer with
    | none =>
      rw [Item.objectBytes_skipped hobject, Nat.zero_add] at hdest ⊢
      obtain ⟨writes, heq, hwithin, hconsecutive⟩ := ih hrest hend' hdest
      refine ⟨writes, heq, ?_, hconsecutive⟩
      intro write hwrite
      exact (hwithin write hwrite).mono (by omega) le_rfl
    | some nBytes =>
      have hpointer := size_of_objectSize hobject hsize
      have hpositive : 0 ≤ nBytes := hnonneg nBytes rfl
      have hpointerWithin (dest destEnd : Nat) : InlineWrite offset
          (endFrom (place + size) its) dest destEnd ⟨.visibleArea, sizeofCb + place, 4⟩ :=
        .inl ⟨rfl, by dsimp only; omega, by dsimp only; omega⟩
      dsimp only
      rw [hfirst]
      split
      · next hsome =>
        rw [Item.objectBytes_eq hobject hsome, ← Nat.add_assoc] at hdest ⊢
        rw [asUnsigned_eq hpositive (by omega), Nat.mod_eq_of_lt (by omega)]
        obtain ⟨writes, heq, hwithin, hconsecutive⟩ := ih hrest hend' hdest
        rw [heq]
        refine ⟨_, rfl, ?_, ?_⟩
        · intro write hwrite
          rcases mem_cons.mp hwrite with rfl | hwrite
          · exact .inr ⟨rfl, le_rfl, Nat.le_add_right _ _⟩
          rcases mem_cons.mp hwrite with rfl | hwrite
          · exact hpointerWithin _ _
          · exact (hwithin write hwrite).mono (by omega) (by omega)
        · exact ⟨rfl, hconsecutive⟩
      · next hnull =>
        rw [Option.not_isSome_iff_eq_none] at hnull
        rw [hnull, Item.objectBytes_null, Nat.zero_add] at hdest ⊢
        obtain ⟨writes, heq, hwithin, hconsecutive⟩ := ih hrest hend' hdest
        rw [heq]
        refine ⟨_, rfl, ?_, ?_⟩
        · intro write hwrite
          rcases mem_cons.mp hwrite with rfl | hwrite
          · exact hpointerWithin _ _
          · exact (hwithin write hwrite).mono (by omega) le_rfl
        · exact hconsecutive

end

end

section

variable {memory : Bool} {endp : Endpoint} {request : Request} {outcome : Outcome} {gcb : Objects}
  {visible marshal metaName : List UInt8} {inline : Option (List UInt8)} {sizes : Sizes}

theorem right_refused (request : Request) (answer : Int) : Right request (.refused answer) :=
  ⟨fun henqueued => (Bool.false_ne_true henqueued).elim, fun _ => rfl⟩

theorem send_cases (h : send memory endp request = some outcome) :
    (request.isRefused = true ∧ ∃ answer, outcome = .refused answer) ∨
      (request.isRefused = false ∧ memory = false ∧ ∃ answer, outcome = .refused answer) ∨
      (request.isRefused = false ∧ memory = true ∧
        ∃ gcb visible marshal inline metaName sizes, request.gcb = some gcb ∧
          request.layouts = some ⟨some visible, some marshal, inline⟩ ∧
          getSizes gcb visible marshal inline = some sizes ∧ sizes.areInvalid = false ∧
          sendMsg endp request gcb visible marshal inline metaName sizes = some outcome) := by
  unfold send at h
  unfold Request.isRefused
  split at h
  · next gcb metaName hgcb hname =>
    split at h
    · next hops =>
      cases h
      rw [decide_eq_true hops]
      exact .inl ⟨rfl, _, rfl⟩
    next hops =>
    rw [decide_eq_false hops, Bool.false_or]
    split at h
    · next visible marshal inline hlayouts =>
      unfold sendChecked at h
      split at h
      · cases h
      next sizes hsizes =>
      rw [hsizes, Option.any_some]
      split at h
      · next hinvalid =>
        cases h
        exact .inl ⟨hinvalid, _, rfl⟩
      next hvalid =>
      rw [Bool.not_eq_true] at hvalid
      split at h
      · next hmemory =>
        cases h
        exact .inr (.inl ⟨hvalid, hmemory, _, rfl⟩)
      · next hmemory =>
        rw [Bool.not_eq_false] at hmemory
        exact .inr (.inr ⟨hvalid, hmemory, gcb, visible, marshal, inline, metaName, sizes,
          hgcb, hlayouts, hsizes, hvalid, h⟩)
    · cases h
      exact .inl ⟨rfl, _, rfl⟩
  · cases h
    exact .inl ⟨rfl, _, rfl⟩

theorem getSizes_eq (h : getSizes gcb visible marshal inline = some sizes) :
    zudiLayoutGetSize visible true = some sizes.visibleSize ∧
      zudiLayoutGetSize marshal false = some sizes.marshalSize ∧
      getTotalMarshalSpaceInlineRequirements visible inline gcb = some sizes.inlineSize ∧
      ∀ count, layoutBytes inline = some count → sizes.inlineLayoutNElems = count := by
  unfold getSizes at h
  simp only [Option.bind_eq_bind, Option.bind_eq_some_iff, Option.pure_def] at h
  obtain ⟨visibleSize, hvisible, marshalSize, hmarshal, inlineSize, hinline, nElems, hnElems,
    heq⟩ := h
  cases heq
  refine ⟨hvisible, hmarshal, hinline, ?_⟩
  intro count hcount
  cases inline with
  | none =>
    cases hnElems
    cases hcount
    rfl
  | some layout =>
    obtain ⟨answer, hanswer, rfl⟩ := Option.map_eq_some_iff.mp hnElems
    unfold layoutBytes at hcount
    dsimp only at hcount
    rw [hanswer] at hcount
    cases answer with
    | error error => cases hcount
    | ok value =>
      cases hcount
      rfl

def Parts.asSizes (parts : Parts) : Sizes :=
  ⟨parts.visible, parts.marshal, parts.inline, parts.layout⟩

theorem roundUp_lt {n bound : Nat} (h : roundUp n 4 < bound) : n < bound := by
  unfold roundUp at h
  omega

variable {parts : Parts}

theorem partsOf_eq (h : partsOf gcb visible marshal inline = some parts) :
    ∃ visibleItems marshalItems layout, layoutItems visible = some visibleItems ∧
      layoutItems marshal = some marshalItems ∧ layoutBytes inline = some layout ∧
      parts = ⟨roundUp (endFrom 0 visibleItems) 4, roundUp (endFrom 0 marshalItems) 4,
        objectsFrom inline gcb 0 visibleItems, layout⟩ := by
  unfold partsOf at h
  split at h
  · next visibleItems marshalItems layout hvisible hmarshal hlayout =>
    cases h
    exact ⟨visibleItems, marshalItems, layout, hvisible, hmarshal, hlayout, rfl⟩
  · cases h

theorem walks_of_parts (hsizes : getSizes gcb visible marshal inline = some sizes)
    (hvalid : sizes.areInvalid = false) (hparts : partsOf gcb visible marshal inline = some parts)
    (htotal : parts.total < 2 ^ 16) : sizes = parts.asSizes ∧
      (∃ its, Walk visible.length visible its ∧ parts.visible = roundUp (endFrom 0 its) 4 ∧
        parts.inline = objectsFrom inline gcb 0 its ∧ ObjectsOk inline gcb 0 its) ∧
      ∃ its, Walk marshal.length marshal its ∧ layoutItems marshal = some its ∧
        parts.marshal = roundUp (endFrom 0 its) 4 := by
  obtain ⟨hvisible, hmarshal, hinline, hlayout⟩ := getSizes_eq hsizes
  obtain ⟨visibleItems, marshalItems, layout, hvisibleItems, hmarshalItems, hbytes, rfl⟩ :=
    partsOf_eq hparts
  unfold Sizes.areInvalid at hvalid
  simp only [Bool.or_eq_false_iff, decide_eq_false_iff_not, not_lt] at hvalid
  obtain ⟨⟨hvisiblePos, hmarshalPos⟩, hinlinePos⟩ := hvalid
  unfold Parts.total at htotal
  dsimp only at htotal
  obtain ⟨its, hwalk, hsize⟩ := walk_of_getSize hvisible hvisiblePos
  obtain ⟨its', hwalk', hsize'⟩ := walk_of_getSize hmarshal hmarshalPos
  obtain rfl : its = visibleItems := Option.some.inj (hwalk.items_eq.symm.trans hvisibleItems)
  obtain rfl : its' = marshalItems := Option.some.inj (hwalk'.items_eq.symm.trans hmarshalItems)
  have hend : endFrom 0 its < 2 ^ 16 := roundUp_lt (by omega)
  have hend' : endFrom 0 its' < 2 ^ 16 := roundUp_lt (by omega)
  obtain ⟨htotalEq, hok⟩ := hwalk.totalLoop_eq (lt_trans hend (by decide)) hinline hinlinePos le_rfl
    (by omega)
  refine ⟨?_, ⟨its, hwalk, rfl, rfl, hok⟩, its', hwalk', hmarshalItems, rfl⟩
  cases sizes with
  | mk visibleSize marshalSize inlineSize nElems =>
    unfold Parts.asSizes
    dsimp only at hsize hsize' htotalEq hlayout ⊢
    rw [hsize hend, hsize' hend', htotalEq, hlayout layout hbytes, Int.zero_add]

theorem asUnsigned_natCast {n : Nat} (h : n < wordModulus) : asUnsigned (n : Int) = n :=
  asUnsigned_eq (Int.natCast_nonneg n) (Int.ofNat_lt.mpr h)

def builtMsg (request : Request) (parts : Parts) (inline : Option (List UInt8))
    (metaName : List UInt8) (arguments objects : List Write) : ChannelMsg :=
  ((((newMsg request parts.asSizes).write arguments).write objects).copyLayout parts.asSizes
    inline).finish request parts.asSizes metaName

theorem payload_asSizes (h : parts.total < 2 ^ 16) : parts.asSizes.payload = parts.total ∧
      parts.asSizes.layoutFirst = parts.first .driverTypedLayout := by
  have hmodulus : 2 ^ 16 < wordModulus := by decide
  unfold Parts.total at h
  constructor
  · exact asUnsigned_natCast (n := parts.total) (by unfold Parts.total; omega)
  · refine asUnsigned_natCast (n := parts.first .driverTypedLayout) ?_
    change sizeofCb + parts.visible + parts.marshal + parts.inline < wordModulus
    omega

def layoutWrites (parts : Parts) : Option (List UInt8) → List Write
  | none => []
  | some _ => [⟨.driverTypedLayout, parts.first .driverTypedLayout, parts.layout⟩]

theorem builtMsg_writes (h : parts.total < 2 ^ 16) (arguments objects : List Write) :
    (builtMsg request parts inline metaName arguments objects).writes =
      ⟨.controlBlock, 0, sizeofCb⟩ :: ⟨.visibleArea, sizeofCb, parts.visible⟩ ::
        (arguments ++ objects ++ layoutWrites parts inline) := by
  have hmodulus : 2 ^ 16 < wordModulus := by decide
  have hfirst := (payload_asSizes h).2
  unfold Parts.total at h
  have hvisible : asUnsigned parts.asSizes.visibleSize = parts.visible :=
    asUnsigned_natCast (by omega)
  have hlayout : asUnsigned parts.asSizes.inlineLayoutNElems = parts.layout :=
    asUnsigned_natCast (by omega)
  unfold builtMsg ChannelMsg.finish ChannelMsg.copyLayout ChannelMsg.write newMsg
  rw [hvisible, hlayout, hfirst]
  cases inline with
  | none => simp [layoutWrites]
  | some layout => simp [layoutWrites]

theorem builtMsg_sizes (h : parts.total < 2 ^ 16) (arguments objects : List Write) :
    (builtMsg request parts inline metaName arguments objects).allocated =
        sizeofChannelMsg + parts.total ∧
      (builtMsg request parts inline metaName arguments objects).headerSize =
        sizeofChannelMsg + parts.total := by
  have hpayload := (payload_asSizes h).1
  have hallocated : (builtMsg request parts inline metaName arguments objects).allocated =
      (sizeofChannelMsg + parts.asSizes.payload) % wordModulus := by
    cases inline with
    | none => rfl
    | some layout => rfl
  have hheader : (builtMsg request parts inline metaName arguments objects).headerSize =
      sizeofChannelMsg + parts.asSizes.payload % 2 ^ 16 := rfl
  rw [hallocated, hheader, hpayload, Nat.mod_eq_of_lt h]
  refine ⟨Nat.mod_eq_of_lt ?_, rfl⟩
  unfold sizeofChannelMsg wordModulus
  omega

theorem placed_builtMsg {arguments objects : List Write} (htotal : parts.total < 2 ^ 16)
    (hnone : inline = none → parts.layout = 0)
    (harguments : ∀ write ∈ arguments, write.part = .stackArguments ∧
      parts.first .stackArguments ≤ write.first ∧
      write.first + write.nBytes ≤ parts.first .stackArguments + parts.marshal)
    (hpairwise : arguments.Pairwise fun write next => write.first + write.nBytes ≤ next.first)
    (hobjects : ∀ write ∈ objects, InlineWrite 0 parts.visible (parts.first .inlineObjects)
      (parts.first .driverTypedLayout) write)
    (hconsecutive : Consecutive (parts.first .inlineObjects)
      (objects.filter (·.part = .inlineObjects)) (parts.first .driverTypedLayout)) :
    Placed (builtMsg request parts inline metaName arguments objects) parts := by
  obtain ⟨hallocated, hheader⟩ := @builtMsg_sizes request metaName inline parts htotal arguments
    objects
  have hwrites := @builtMsg_writes request metaName inline parts htotal arguments objects
  have hstack : arguments.filter (·.part = .stackArguments) = arguments := by
    refine filter_eq_self.mpr ?_
    intro write hwrite
    exact decide_eq_true (harguments write hwrite).1
  have hnoStack : objects.filter (·.part = .stackArguments) = [] := by
    refine filter_eq_nil_iff.mpr ?_
    intro write hwrite
    rcases hobjects write hwrite with ⟨hpart, -⟩ | ⟨hpart, -⟩ <;> simp [hpart]
  have hnoInline : arguments.filter (·.part = .inlineObjects) = [] := by
    refine filter_eq_nil_iff.mpr ?_
    intro write hwrite
    simp [(harguments write hwrite).1]
  have hlayout : ∀ write ∈ layoutWrites parts inline,
      write = ⟨.driverTypedLayout, parts.first .driverTypedLayout, parts.layout⟩ := by
    intro write hwrite
    cases inline with
    | none => cases hwrite
    | some layout => exact mem_singleton.mp hwrite
  have hnotLayout (part : Part) (hpart : part ≠ .driverTypedLayout) :
      (layoutWrites parts inline).filter (·.part = part) = [] := by
    refine filter_eq_nil_iff.mpr ?_
    intro write hwrite
    rw [hlayout write hwrite]
    simpa using hpart.symm
  refine ⟨hallocated, hheader, ?_, ?_, ?_, ?_⟩
  · rw [hwrites]
    intro write hwrite
    simp only [mem_cons, mem_append] at hwrite
    rcases hwrite with rfl | rfl | (hwrite | hwrite) | hwrite
    · exact ⟨le_rfl, le_rfl⟩
    · exact ⟨le_rfl, le_rfl⟩
    · obtain ⟨hpart, hlow, hhigh⟩ := harguments write hwrite
      rw [hpart]
      exact ⟨hlow, hhigh⟩
    · rcases hobjects write hwrite with ⟨hpart, hlow, hhigh⟩ | ⟨hpart, hlow, hhigh⟩
      · rw [hpart]
        exact ⟨hlow, hhigh⟩
      · rw [hpart]
        exact ⟨hlow, hhigh⟩
    · rw [hlayout write hwrite]
      exact ⟨le_rfl, le_rfl⟩
  · rw [hwrites]
    intro part hpart hbytes
    simp only [mem_cons, not_mem_nil, or_false] at hpart
    rcases hpart with rfl | rfl | rfl
    · exact mem_cons_self
    · exact mem_cons_of_mem _ mem_cons_self
    · cases inline with
      | none => exact absurd (hnone rfl) hbytes
      | some layout => simp [layoutWrites, Parts.nBytes]
  · rw [hwrites, filter_cons_of_neg (by simp), filter_cons_of_neg (by simp),
      filter_append, filter_append, hstack, hnoStack, hnotLayout _ (by decide)]
    simpa using hpairwise
  · rw [hwrites, filter_cons_of_neg (by simp), filter_cons_of_neg (by simp),
      filter_append, filter_append, hnoInline, hnotLayout _ (by decide)]
    simpa using hconsecutive

theorem sendMsg_placed (hsizes : getSizes gcb visible marshal inline = some sizes)
    (hvalid : sizes.areInvalid = false) (hparts : partsOf gcb visible marshal inline = some parts)
    (htotal : parts.total < 2 ^ 16) (hsupported : ∀ its, layoutItems marshal = some its →
      ∀ item ∈ its, item.size ∈ [1, 2, 4, 8, 16]) :
    ∃ msg, sendMsg endp request gcb visible marshal inline metaName sizes =
        some ⟨endp.send, some msg, decide (endp.send = 0)⟩ ∧ Placed msg parts := by
  have hmodulus : 2 ^ 16 < wordModulus := by decide
  obtain ⟨rfl, ⟨its, hwalk, hvisible, hinline, hok⟩, its', hwalk', hitems, hmarshal⟩ :=
    walks_of_parts hsizes hvalid hparts htotal
  have hnone : inline = none → parts.layout = 0 := by
    rintro rfl
    obtain ⟨-, -, layout, -, -, hbytes, rfl⟩ := partsOf_eq hparts
    cases hbytes
    rfl
  have hsum := htotal
  unfold Parts.total at hsum
  have hstackFirst : asUnsigned (sizeofCb + parts.asSizes.visibleSize) =
      parts.first .stackArguments := by
    refine asUnsigned_natCast (n := parts.first .stackArguments) ?_
    change sizeofCb + parts.visible < wordModulus
    omega
  have hinlineFirst : asUnsigned (sizeofCb + parts.asSizes.visibleSize +
      parts.asSizes.marshalSize) = parts.first .inlineObjects := by
    refine asUnsigned_natCast (n := parts.first .inlineObjects) ?_
    change sizeofCb + parts.visible + parts.marshal < wordModulus
    omega
  have hfirstStack : parts.first .stackArguments = sizeofCb + parts.visible := rfl
  have hfirstInline : parts.first .inlineObjects =
      sizeofCb + parts.visible + parts.marshal := rfl
  have hfirstLayout : parts.first .driverTypedLayout =
      sizeofCb + parts.visible + parts.marshal + parts.inline := rfl
  have hvisibleEnd : endFrom 0 its ≤ parts.visible := by
    rw [hvisible]
    unfold roundUp
    omega
  have hmarshalEnd : endFrom 0 its' ≤ parts.marshal := by
    rw [hmarshal]
    unfold roundUp
    omega
  obtain ⟨arguments, harguments, hwithin, hpairwise⟩ :=
    @Walk.stackLoop_eq _ _ _ (parts.first .stackArguments) 0 hwalk' (hsupported its' hitems)
      (by omega)
  obtain ⟨objects, hobjects, hinlineWithin, hconsecutive⟩ :=
    @Walk.inlineLoop_eq _ _ _ _ _ (parts.first .inlineObjects) 0 hwalk hok (by omega) (by omega)
  refine ⟨builtMsg request parts inline metaName arguments objects, ?_, ?_⟩
  · unfold sendMsg marshalStackArguments marshalInlineObjects
    rw [hstackFirst, hinlineFirst, harguments]
    dsimp only
    rw [if_neg (by decide), hobjects]
    rfl
  · rw [← hinline, hfirstInline, ← hfirstLayout] at hinlineWithin hconsecutive
    refine placed_builtMsg htotal hnone ?_ hpairwise ?_ hconsecutive
    · intro write hwrite
      obtain ⟨hpart, hlow, hhigh⟩ := hwithin write hwrite
      exact ⟨hpart, hlow, le_trans hhigh (Nat.add_le_add_left hmarshalEnd _)⟩
    · intro write hwrite
      rcases hinlineWithin write hwrite with ⟨hpart, hlow, hhigh⟩ | hobject
      · exact .inl ⟨hpart, hlow, le_trans hhigh (Nat.add_le_add_left hvisibleEnd _)⟩
      · exact .inr hobject

theorem sendMsg_cases
    (h : sendMsg endp request gcb visible marshal inline metaName sizes = some outcome) :
    (∃ status msg, outcome = ⟨status, some msg, false⟩ ∧ status < 0) ∨
      ∃ msg status arguments, outcome = ⟨endp.send, some msg, decide (endp.send = 0)⟩ ∧
        msg.headerSize < sizeofChannelMsg + 2 ^ 16 ∧
        marshalStackArguments (asUnsigned (sizeofCb + sizes.visibleSize)) marshal =
          some (status, arguments) ∧ ¬ status < 0 := by
  unfold sendMsg at h
  split at h
  · cases h
  next status arguments harguments =>
  split at h
  · next hneg =>
    cases h
    exact .inl ⟨status, _, rfl, hneg⟩
  next hstatus =>
  split at h
  · cases h
  split at h
  · next hneg =>
    cases h
    exact .inl ⟨_, _, rfl, hneg⟩
  · cases h
    refine .inr ⟨_, status, arguments, rfl, ?_, harguments, hstatus⟩
    exact Nat.add_lt_add_left (Nat.mod_lt _ (by decide)) _

theorem supported_iff (request : Request) {visible : Option (List UInt8)}
    (hlayouts : request.layouts = some ⟨visible, some marshal, inline⟩) {its : List Item}
    (hitems : layoutItems marshal = some its) :
    request.argumentsSupported = true ↔ ∀ item ∈ its, item.size ∈ [1, 2, 4, 8, 16] := by
  unfold Request.argumentsSupported
  rw [hlayouts]
  dsimp only
  rw [hitems, Option.getD_some, all_eq_true]
  simp

/-- `send` either marshals the whole message and enqueues it, or allocates nothing, exactly if it
refuses the request beforehand, has no memory for it, or finds small parts, supported arguments
and an endpoint that takes the message. -/
theorem send_right_iff (memory : Bool) (endp : Endpoint) (request : Request) (outcome : Outcome)
    (h : send memory endp request = some outcome) :
    Right request outcome ↔ Meets memory endp request := by
  rcases send_cases h with ⟨hrefused, answer, rfl⟩ | ⟨hrefused, hmemory, answer, rfl⟩ |
    ⟨hrefused, hmemory, gcb, visible, marshal, inline, metaName, sizes, hgcb, hlayouts, hsizes,
      hvalid, hsend⟩
  · exact ⟨fun _ => .inl hrefused, fun _ => right_refused request answer⟩
  · exact ⟨fun _ => .inr (.inl hmemory), fun _ => right_refused request answer⟩
  have hparts : request.parts = partsOf gcb visible marshal inline := by
    unfold Request.parts
    rw [hgcb, hlayouts]
  have hmarshalPos : 0 ≤ sizes.marshalSize := by
    unfold Sizes.areInvalid at hvalid
    simp only [Bool.or_eq_false_iff, decide_eq_false_iff_not, not_lt] at hvalid
    exact hvalid.1.2
  obtain ⟨its, hwalk, -⟩ := walk_of_getSize (getSizes_eq hsizes).2.1 hmarshalPos
  have hitems : layoutItems marshal = some its := hwalk.items_eq
  have hsupported := supported_iff request hlayouts hitems
  constructor
  · rintro ⟨hplaced, hfreed⟩
    refine .inr (.inr ?_)
    rcases sendMsg_cases hsend with ⟨status, msg, rfl, hneg⟩ |
      ⟨msg, status, arguments, rfl, hsize, harguments, hstatus⟩
    · cases hfreed (ne_of_lt hneg)
    have hsent : endp.send = 0 := by
      by_contra hne
      cases hfreed hne
    refine ⟨?_, hsupported.mpr ?_, hsent⟩
    · obtain ⟨msg', parts, hmsg, hsome, hplace⟩ := hplaced (decide_eq_true hsent)
      cases hmsg
      refine ⟨parts, hsome, ?_⟩
      have hheader := hplace.headerSize
      omega
    · by_contra hsizes'
      obtain ⟨status', arguments', heq, hneg⟩ := @Walk.stackLoop_fails _ _ _
        (asUnsigned (sizeofCb + sizes.visibleSize)) 0 hwalk hsizes'
      unfold marshalStackArguments at harguments
      rw [heq] at harguments
      cases harguments
      exact hstatus hneg
  · rintro (hrefused' | hmemory' | ⟨⟨parts, hsome, htotal⟩, hall, hsent⟩)
    · rw [hrefused] at hrefused'
      cases hrefused'
    · rw [hmemory] at hmemory'
      cases hmemory'
    · obtain ⟨msg, heq, hplaced⟩ := @sendMsg_placed endp request gcb visible marshal metaName
        inline sizes parts hsizes hvalid (hparts ▸ hsome) htotal (by
          intro its' hits'
          cases hitems.symm.trans hits'
          exact hsupported.mp hall)
      rw [hsend] at heq
      cases heq
      refine ⟨fun _ => ⟨msg, parts, rfl, hsome, hplaced⟩, ?_⟩
      intro hanswer
      exact absurd hsent hanswer

def openEndpoint : Endpoint := ⟨true, true, 0⟩

/-- A movable object of 10 bytes, two arguments and a driver-typed layout of two bytes. -/
def movableRequest : Request where
  gcb := some fun _ => some 10
  layouts := some ⟨some [dlMovableUntyped, dlEnd], some [1, 5, dlEnd], some [5, dlEnd]⟩
  metaName := some [97]
  metaOpsNum := 1
  opsIdx := 2
  privateData := 0

theorem send_right_iff_movableRequest :
    ∃ outcome, send true openEndpoint movableRequest = some outcome ∧ outcome.enqueued = true ∧
      (Right movableRequest outcome ↔ Meets true openEndpoint movableRequest) := by
  have hsend : ((send true openEndpoint movableRequest).any fun outcome => outcome.enqueued) =
      true := by
    decide +kernel
  obtain ⟨outcome, houtcome, henqueued⟩ := (Option.any_eq_true _ _).mp hsend
  exact ⟨outcome, houtcome, henqueued, send_right_iff true openEndpoint movableRequest outcome
    houtcome⟩

/-- The driver-typed layout has an inline element, and nothing in the control block asks for it. -/
def malformedRequest : Request where
  gcb := some fun _ => none
  layouts := some ⟨some [dlEnd], some [dlEnd], some [dlInlineDriverTyped, dlEnd]⟩
  metaName := some [97]
  metaOpsNum := 1
  opsIdx := 2
  privateData := 0

theorem malformedRequest_not_right :
    ∃ outcome msg, send true openEndpoint malformedRequest = some outcome ∧
      outcome.message = some msg ∧ msg.allocated = sizeofChannelMsg + 14 ∧
      ⟨.driverTypedLayout, 20, 2 ^ 32 - 6⟩ ∈ msg.writes ∧ ¬ Right malformedRequest outcome := by
  refine ⟨_, _, rfl, rfl, ?_, ?_, ?_⟩
  · decide +kernel
  · decide +kernel
  · rintro ⟨hplaced, -⟩
    obtain ⟨msg, parts, -, hparts, -⟩ := hplaced rfl
    cases hparts

end

end Zambesii.ChannelSend
