import Zambesii.UdiBuf

/-!
What `udi_buf_write` leaves in a buffer: insertions, overwrites and deletions.
-/

namespace Zambesii.UdiBufWrite

open Function Nat Option
open KernelTypes UdiBuf

def bufSize (list : SgList) : Nat := pagingBaseSize * list.nFrames

/-- The range to be written is in the buffer, all of which is mapped, and the kernel can make
room for what goes beyond. -/
structure Ready (answers : Answers) (world : World) (buf : Nat) (msgl : Msgl) (list : SgList)
    (dstOff dstLen srcLen : Nat) : Prop where
  found : world.msgls buf = some msgl
  kernel : world.lists msgl.sGListIndex = some list
  mapped : msgl.mapped = list.nFrames
  bound : bufSize list < wordModulus
  range : dstOff + dstLen ≤ bufSize list
  grows : bufSize list < dstOff + srcLen → answers.resized.1 = true ∧
    answers.remapped = true ∧ dstOff + srcLen ≤ bufSize answers.resized.2 ∧
      bufSize answers.resized.2 < wordModulus

def roomyList (answers : Answers) (list : SgList) (dstOff srcLen : Nat) : SgList :=
  if bufSize list < dstOff + srcLen then answers.resizedList list else list

theorem bufSize_resizedList (answers : Answers) (list : SgList) :
    bufSize (answers.resizedList list) = bufSize answers.resized.2 :=
  rfl

structure Written (srcMem : Option (Nat → UInt8)) (srcLen dstOff dstLen size : Nat)
    (old new : Nat → UInt8) : Prop where
  inserted : dstLen = 0 → (∀ source ∈ srcMem, ∀ i, i < srcLen → new (dstOff + i) = source i) ∧
    (∀ i, i < dstOff → new i = old i) ∧
      ∀ i, dstOff ≤ i → i < size → new (i + srcLen) = old i
  overwritten : dstLen ≠ 0 → srcLen ≤ dstLen → ∀ source ∈ srcMem,
    (∀ i, i < srcLen → new (dstOff + i) = source i) ∧
      ∀ i, i < size → ¬ (dstOff ≤ i ∧ i < dstOff + srcLen) → new i = old i
  deleted : srcMem = none → srcLen = 0 → (∀ i, i < dstOff → new i = old i) ∧
    ∀ i, dstOff ≤ i → i + dstLen < size → new i = old (i + dstLen)

def Meets (answers : Answers) (world : World) (buf : Nat) (list : SgList)
    (srcMem : Option (Nat → UInt8)) (srcLen dstOff dstLen : Nat) (path : Bool) : Prop :=
  ∃ after msgl new, (∀ callback : Option Nat → World → Option World,
      udiBufWrite answers (some callback) true srcMem srcLen (some buf) dstOff dstLen path world =
        callback (some buf) after) ∧
    after.msgls buf = some msgl ∧ after.lists msgl.sGListIndex = some new ∧
      Written srcMem srcLen dstOff dstLen (bufSize list) list.bytes new.bytes

/-- Nothing is inserted; what goes beyond the range leaves as much room behind it; and a range
that is given no bytes is zero already. -/
structure Harmless (answers : Answers) (list : SgList) (srcMem : Option (Nat → UInt8))
    (srcLen dstOff dstLen : Nat) : Prop where
  noInsertion : dstLen = 0 → srcLen = 0
  room : srcMem.isSome → dstLen < srcLen →
    dstOff + srcLen + (srcLen - dstLen) ≤ bufSize (roomyList answers list dstOff srcLen)
  zero : srcMem.isSome → srcLen = 0 → ∀ i, i < dstLen → list.bytes (dstOff + i) = 0

section

variable {world : World} {buf index n : Nat} {list : SgList}

/-- A buffer of `n` frames, all of them mapped. -/
structure Whole (world : World) (buf index n : Nat) (list : SgList) : Prop where
  found : world.msgls buf = some ⟨n, n, index⟩
  kernel : world.lists index = some list
  bound : pagingBaseSize * n < wordModulus

theorem pagesToBytes_of_lt (h : pagingBaseSize * n < wordModulus) :
    pagesToBytes n = pagingBaseSize * n :=
  mod_eq_of_lt h

def stored (world : World) (index : Nat) (list : SgList) (bytes : Nat → UInt8) : World :=
  world.setList index (some { list with bytes })

theorem Whole.store_whole (h : Whole world buf index n list) (bytes : Nat → UInt8) :
    Whole (stored world index list bytes) buf index n { list with bytes } where
  found := h.found
  kernel := by simp [stored, World.setList]
  bound := h.bound

theorem place_zero (bytes : Nat → UInt8) (offset : Nat) (source : Nat → UInt8) :
    place bytes offset 0 source = bytes := by
  funext i
  rw [place, if_neg (by omega)]

variable {offset nBytes : Nat}

variable (h : Whole world buf index n list)

include h

theorem Whole.store_eq (hrange : offset + nBytes ≤ pagingBaseSize * n) (source : Nat → UInt8) :
    store world buf offset nBytes source =
      some (stored world index list (place list.bytes offset nBytes source)) := by
  have haccessible : Accessible ⟨n, n, index⟩ offset nBytes := .inr hrange
  simp only [store, h.found, some_bind, not_true_eq_false, haccessible, if_false]
  rcases eq_or_ne nBytes 0 with rfl | hne
  · rw [if_pos rfl, place_zero]
    have hself : stored world index list list.bytes = world := by
      rw [stored, World.setList, ← h.kernel, update_eq_self]
    rw [hself]
  · simp only [if_neg hne, h.kernel, some_bind]
    rfl

theorem Whole.store_eq_none (hne : nBytes ≠ 0)
    (hrange : pagingBaseSize * n < offset + nBytes) (source : Nat → UInt8) :
    store world buf offset nBytes source = none := by
  have haccessible : ¬ Accessible ⟨n, n, index⟩ offset nBytes := by
    rintro (hzero | hle)
    · exact hne hzero
    · exact absurd hle (not_le.mpr hrange)
  simp [store, h.found, some_bind, haccessible]

theorem Whole.memset8_eq
    (hrange : offset + nBytes ≤ pagingBaseSize * n) (value : UInt8) :
    memset8 world buf offset value nBytes =
      some (stored world index list (place list.bytes offset nBytes fun _ => value)) := by
  have hbound := h.bound
  simp only [memset8, h.found, some_bind, pagesToBytes_of_lt hbound]
  rw [if_pos (le_trans (mod_le _ _) hrange), h.store_eq hrange]

theorem Whole.memset8_eq_none (hne : nBytes ≠ 0)
    (hrange : pagingBaseSize * n < offset + nBytes) (value : UInt8) :
    memset8 world buf offset value nBytes = none := by
  simp only [memset8, h.found, some_bind]
  split
  · exact h.store_eq_none hne hrange _
  · rfl

theorem Whole.write_eq (hrange : offset + nBytes ≤ pagingBaseSize * n) (source : Nat → UInt8) :
    write world source buf offset nBytes =
      some (true, stored world index list (place list.bytes offset nBytes source)) := by
  have hle := le_trans (mod_le (offset + nBytes) wordModulus) hrange
  simp only [write, h.found, some_bind, pagesToBytes_of_lt h.bound, h.store_eq hrange]
  rw [if_neg (not_lt.mpr hle)]

theorem Whole.memmove_eq {destOff srcOff : Nat}
    (hdest : destOff + nBytes ≤ pagingBaseSize * n) (hsrc : srcOff + nBytes ≤ pagingBaseSize * n) :
    memmove world buf destOff srcOff nBytes =
      some (stored world index list
        (place list.bytes destOff nBytes fun i => list.bytes (srcOff + i))) := by
  have hdestLe := le_trans (mod_le (destOff + nBytes) wordModulus) hdest
  have hsrcLe := le_trans (mod_le (srcOff + nBytes) wordModulus) hsrc
  have haccessible : Accessible ⟨n, n, index⟩ srcOff nBytes := .inr hsrc
  simp only [memmove, h.found, some_bind, pagesToBytes_of_lt h.bound]
  rw [if_pos ⟨hdestLe, hsrcLe, haccessible⟩]
  rcases eq_or_ne nBytes 0 with rfl | hne
  · rw [if_pos rfl, place_zero, stored, World.setList, ← h.kernel, update_eq_self]
  · simp only [if_neg hne, h.kernel, some_bind, h.store_eq hdest]

theorem Whole.memmove_eq_none {destOff srcOff : Nat}
    (hne : nBytes ≠ 0) (hdest : pagingBaseSize * n < destOff + nBytes) :
    memmove world buf destOff srcOff nBytes = none := by
  simp only [memmove, h.found, some_bind]
  split
  · simp [h.kernel, some_bind, h.store_eq_none hne hdest]
  · rfl

omit h

end

section

variable {answers : Answers} {world : World} {buf : Nat} {msgl : Msgl} {list : SgList}
  {dstOff dstLen srcLen : Nat}

theorem Ready.endOfWrite_eq (h : Ready answers world buf msgl list dstOff dstLen srcLen) :
    endOfWrite dstOff dstLen srcLen = dstOff + max srcLen dstLen := by
  have hbound := h.bound
  have hrange := h.range
  have hgrows := h.grows
  have hlt : dstOff + srcLen < wordModulus := by
    rcases lt_or_ge (bufSize list) (dstOff + srcLen) with hbeyond | hwithin
    · obtain ⟨-, -, hle, hlt⟩ := hgrows hbeyond
      omega
    · omega
  rw [endOfWrite]
  split
  · rw [mod_eq_of_lt hlt, max_eq_left (by omega)]
  · rw [mod_eq_of_lt (by omega), max_eq_right (by omega)]

theorem hasEnoughMemoryForWrite_eq (dstOff dstLen srcLen : Nat)
    (hmsgl : world.msgls buf = some msgl) (hlist : world.lists msgl.sGListIndex = some list)
    (hbound : bufSize list < wordModulus) :
    hasEnoughMemoryForWrite world buf dstOff dstLen srcLen =
      some (if bufSize list < endOfWrite dstOff dstLen srcLen then
          some (endOfWrite dstOff dstLen srcLen - bufSize list) else none,
        world.setMsgl buf (some { msgl with nFrames := list.nFrames })) := by
  have hpages : pagesToBytes list.nFrames = bufSize list := pagesToBytes_of_lt hbound
  simp only [hasEnoughMemoryForWrite, hmsgl, some_bind,
    getNFramesInScatterGatherList, hlist, hpages]
  split <;> rfl

theorem Ready.grow_eq (h : Ready answers world buf msgl list dstOff dstLen srcLen)
    (hbeyond : bufSize list < dstOff + srcLen) :
    ∃ after, grow answers buf dstOff dstLen srcLen
        (endOfWrite dstOff dstLen srcLen - bufSize list)
        (world.setMsgl buf (some { msgl with nFrames := list.nFrames })) = some (true, after) ∧
      Whole after buf msgl.sGListIndex (answers.resizedList list).nFrames
        (answers.resizedList list) := by
  obtain ⟨hresized, hremapped, henough, hbound⟩ := h.grows hbeyond
  have hend := h.endOfWrite_eq
  have hrange := h.range
  have hwanted : (list.nFrames + bytesToPages (endOfWrite dstOff dstLen srcLen - bufSize list)) %
      wordModulus ≠ 0 := by
    unfold bytesToPages bufSize pagingBaseSize wordModulus at *
    split <;> omega
  let first := world.setMsgl buf (some { msgl with nFrames := list.nFrames })
  let resized := first.setList msgl.sGListIndex (some (answers.resizedList list))
  have hfound : first.msgls buf = some { msgl with nFrames := list.nFrames } := by
    simp [first, World.setMsgl]
  have hresize : resizeScatterGatherList answers msgl.sGListIndex
      ((list.nFrames + bytesToPages (endOfWrite dstOff dstLen srcLen - bufSize list)) %
        wordModulus) first = (true, resized) := by
    have hkernel : first.lists msgl.sGListIndex = some list := h.kernel
    rw [resizeScatterGatherList, if_neg hwanted, hkernel]
    simp only [hresized, resized]
  have hfits : ¬ bufSize (answers.resizedList list) < endOfWrite dstOff dstLen srcLen := by
    rw [hend, bufSize_resizedList]
    omega
  have hfound' : resized.msgls buf = some { msgl with nFrames := list.nFrames } := hfound
  have hkernel : resized.lists msgl.sGListIndex = some (answers.resizedList list) := by
    simp [resized, World.setList]
  have hsecond : hasEnoughMemoryForWrite resized buf dstOff dstLen srcLen = some (none,
      resized.setMsgl buf (some { msgl with nFrames := (answers.resizedList list).nFrames })) := by
    rw [hasEnoughMemoryForWrite_eq dstOff dstLen srcLen hfound' hkernel hbound, if_neg hfits]
  generalize hlastEq : resized.setMsgl buf
    (some { msgl with nFrames := (answers.resizedList list).nFrames }) = last at hsecond
  have hlast : last.msgls buf =
      some { msgl with nFrames := (answers.resizedList list).nFrames } := by
    simp [← hlastEq, World.setMsgl]
  have hlastKernel : last.lists msgl.sGListIndex = some (answers.resizedList list) := by
    rw [← hlastEq]
    exact hkernel
  refine ⟨last.setMsgl buf (some ⟨(answers.resizedList list).nFrames,
    (answers.resizedList list).nFrames, msgl.sGListIndex⟩), ?_, ?_⟩
  · change grow answers buf dstOff dstLen srcLen _ first = _
    simp [grow, hfound, hresize, hsecond, hlast, remapScatterGatherList, hlastKernel, hremapped]
  · exact ⟨by simp [World.setMsgl], hlastKernel, hbound⟩

theorem Ready.makeRoom_eq (h : Ready answers world buf msgl list dstOff dstLen srcLen) :
    ∃ after, makeRoom answers buf dstOff dstLen srcLen world = some (true, after) ∧
      Whole after buf msgl.sGListIndex (roomyList answers list dstOff srcLen).nFrames
        (roomyList answers list dstOff srcLen) := by
  have hrange := h.range
  have hend := h.endOfWrite_eq
  have hfirst := hasEnoughMemoryForWrite_eq dstOff dstLen srcLen h.found h.kernel h.bound
  rcases lt_or_ge (bufSize list) (dstOff + srcLen) with hbeyond | hwithin
  · obtain ⟨after, hgrow, hwhole⟩ := h.grow_eq hbeyond
    rw [if_pos (by rw [hend]; omega)] at hfirst
    refine ⟨after, ?_, ?_⟩
    · simp only [makeRoom, hfirst, some_bind, hgrow]
    · rw [roomyList, if_pos hbeyond]
      exact hwhole
  · rw [if_neg (by rw [hend]; omega)] at hfirst
    refine ⟨world.setMsgl buf (some { msgl with nFrames := list.nFrames }), ?_, ?_⟩
    · simp only [makeRoom, hfirst, some_bind]
    · rw [roomyList, if_neg (not_lt.mpr hwithin)]
      refine ⟨?_, h.kernel, h.bound⟩
      simp [World.setMsgl, h.mapped]

end

section

variable {world : World} {buf index n : Nat} {list : SgList} {srcMem : Option (Nat → UInt8)}
  {source : Nat → UInt8} {dstOff dstLen srcLen size : Nat} {bytes : Nat → UInt8}

def newBytes (srcMem : Option (Nat → UInt8)) (srcLen dstOff dstLen size : Nat)
    (bytes : Nat → UInt8) : Nat → UInt8 :=
  match srcMem with
  | none =>
    if srcLen = 0 then
      place bytes dstOff (size - (dstOff + dstLen)) fun i => bytes (dstOff + dstLen + i)
    else place bytes dstOff (if srcLen > dstLen then srcLen else dstLen) fun _ => 0
  | some source =>
    if srcLen = 0 then place bytes dstOff dstLen fun _ => 0
    else if srcLen > dstLen then
      place (place bytes dstOff srcLen source) (dstOff + srcLen) (srcLen - dstLen) fun _ => 0
    else place bytes dstOff srcLen source

theorem place_self (bytes : Nat → UInt8) (offset nBytes : Nat) :
    place bytes offset nBytes (fun i => bytes (offset + i)) = bytes := by
  funext i
  rw [place]
  split
  · rename_i hi
    rw [Nat.add_sub_cancel' hi.1]
  · rfl

theorem Whole.stored_self (h : Whole world buf index n list) :
    stored world index list list.bytes = world := by
  rw [stored, World.setList, ← h.kernel, update_eq_self]

theorem bytesBehind_eq (hbound : pagingBaseSize * n < wordModulus)
    (hrange : dstOff + dstLen ≤ pagingBaseSize * n) :
    bytesBehind n dstOff dstLen = pagingBaseSize * n - (dstOff + dstLen) := by
  rw [bytesBehind, pagesToBytes_of_lt hbound, mod_eq_of_lt (lt_of_le_of_lt hrange hbound)]
  have hsplit : pagingBaseSize * n + wordModulus - (dstOff + dstLen) =
      pagingBaseSize * n - (dstOff + dstLen) + wordModulus := by
    omega
  rw [hsplit, add_mod_right, mod_eq_of_lt (by omega)]

variable (h : Whole world buf index n list)

include h

theorem Whole.moveUp_insertion
    (hrange : dstOff + srcLen ≤ pagingBaseSize * n) (hsrcLen : srcLen ≠ 0) :
    moveUp srcLen buf dstOff 0 world = none := by
  have hbound := h.bound
  have hrest : bytesBehind n dstOff 0 = pagingBaseSize * n - (dstOff + 0) :=
    bytesBehind_eq hbound (by omega)
  have hmod : (dstOff + srcLen) % wordModulus = dstOff + srcLen := mod_eq_of_lt (by omega)
  rw [moveUp, if_pos rfl, h.found, some_bind, hrest, hmod]
  exact h.memmove_eq_none (by omega) (by omega)

theorem Whole.moveUp_eq
    (hrange : dstOff + dstLen ≤ pagingBaseSize * n) (hinsertion : dstLen = 0 → srcLen = 0) :
    moveUp srcLen buf dstOff dstLen world = some world := by
  rw [moveUp]
  split
  · rename_i hzero
    have hbound := h.bound
    obtain rfl := hzero
    obtain rfl := hinsertion rfl
    rw [h.found, some_bind, mod_eq_of_lt (by omega), add_zero,
      bytesBehind_eq hbound hrange, h.memmove_eq (by omega) (by omega), place_self, h.stored_self]
  · rfl

theorem Whole.putBytes_fill
    (hsrc : dstOff + srcLen ≤ pagingBaseSize * n) (hbeyond : dstLen < srcLen)
    (hroom : pagingBaseSize * n < dstOff + srcLen + (srcLen - dstLen)) :
    putBytes (some source) srcLen buf dstOff dstLen world = none := by
  have hbound := h.bound
  have hmod : (dstOff + srcLen) % wordModulus = dstOff + srcLen := mod_eq_of_lt (by omega)
  have hne : srcLen ≠ 0 := by omega
  have hfill := (h.store_whole (place list.bytes dstOff srcLen source)).memset8_eq_none
    (by omega : srcLen - dstLen ≠ 0) hroom 0
  simp only [putBytes, if_neg hne, h.write_eq hsrc, some_bind,
    Bool.true_eq_false, if_false, gt_iff_lt, hbeyond, if_true, hmod, hfill]

theorem Whole.putBytes_eq
    (hrange : dstOff + dstLen ≤ pagingBaseSize * n) (hsrc : dstOff + srcLen ≤ pagingBaseSize * n)
    (hroom : srcMem.isSome → dstLen < srcLen →
      dstOff + srcLen + (srcLen - dstLen) ≤ pagingBaseSize * n) :
    putBytes srcMem srcLen buf dstOff dstLen world = some (stored world index list
        (newBytes srcMem srcLen dstOff dstLen (pagingBaseSize * n) list.bytes)) := by
  have hbound := h.bound
  have hmax : dstOff + (if srcLen > dstLen then srcLen else dstLen) ≤ pagingBaseSize * n := by
    split <;> omega
  cases srcMem with
  | none =>
    rcases eq_or_ne srcLen 0 with rfl | hne
    · rw [putBytes, if_pos rfl, h.found, some_bind,
        mod_eq_of_lt (by omega), bytesBehind_eq hbound hrange,
        h.memmove_eq (by omega) (by omega), newBytes, if_pos rfl]
    · simp only [putBytes, if_neg hne, newBytes]
      rw [h.memset8_eq hmax]
  | some source =>
    rcases eq_or_ne srcLen 0 with rfl | hne
    · have hnot : ¬ 0 > dstLen := by omega
      simp only [putBytes, if_true, newBytes, if_neg hnot]
      rw [h.memset8_eq hrange]
    simp only [putBytes, if_neg hne, newBytes, h.write_eq hsrc, some_bind, Bool.true_eq_false,
      if_false]
    split
    · rename_i hbeyond
      rw [mod_eq_of_lt (by omega),
        (h.store_whole _).memset8_eq (hroom rfl hbeyond)]
      simp [stored, World.setList]
    · rfl

omit h

theorem written_newBytes (hrange : dstOff + dstLen ≤ size) (hinsertion : dstLen = 0 → srcLen = 0)
    (hzero : srcMem.isSome → srcLen = 0 → ∀ i, i < dstLen → bytes (dstOff + i) = 0) :
    Written srcMem srcLen dstOff dstLen size bytes
      (newBytes srcMem srcLen dstOff dstLen size bytes) where
  inserted := by
    intro hdstLen
    obtain rfl := hdstLen
    obtain rfl := hinsertion rfl
    have hsame : newBytes srcMem 0 dstOff 0 size bytes = bytes := by
      cases srcMem with
      | none =>
        exact place_self bytes dstOff (size - dstOff)
      | some source => rw [newBytes, if_pos rfl, place_zero]
    rw [hsame]
    refine ⟨?_, fun _ _ => rfl, fun _ _ _ => rfl⟩
    intro _ _ i hi
    omega
  overwritten := by
    intro _ hle source hsource
    obtain rfl := mem_def.mp hsource
    rcases eq_or_ne srcLen 0 with rfl | hne
    · refine ⟨fun i hi => absurd hi (not_lt_zero i), ?_⟩
      intro i _ _
      rw [newBytes, if_pos rfl, place]
      split
      · rename_i hi
        have := hzero rfl rfl (i - dstOff) (by omega)
        rw [Nat.add_sub_cancel' hi.1] at this
        exact this.symm
      · rfl
    · simp only [newBytes, if_neg hne, if_neg (not_lt.mpr hle)]
      constructor
      · intro i hi
        rw [place, if_pos ⟨by omega, by omega⟩, Nat.add_sub_cancel_left]
      · intro i _ hout
        rw [place, if_neg hout]
  deleted := by
    rintro rfl rfl
    rw [newBytes, if_pos rfl]
    constructor
    · intro i hi
      rw [place, if_neg (by omega)]
    · intro i hle hlt
      rw [place, if_pos ⟨hle, by omega⟩]
      congr 1
      omega

end

section

variable {answers : Answers} {world : World} {buf : Nat} {msgl : Msgl} {list : SgList}
  {srcMem : Option (Nat → UInt8)} {dstOff dstLen srcLen : Nat} {path : Bool}

theorem udiBufWrite_eq {after : World} (callback : Option Nat → World → Option World)
    (hroom : makeRoom answers buf dstOff dstLen srcLen world = some (true, after)) :
    udiBufWrite answers (some callback) true srcMem srcLen (some buf) dstOff dstLen path world =
      (moveUp srcLen buf dstOff dstLen after).bind fun moved =>
        (putBytes srcMem srcLen buf dstOff dstLen moved).bind (callback (some buf)) := by
  simp [udiBufWrite, checkGcbAndCallbackValid, bufWriteInto, hroom, invoke]

theorem Ready.srcLen_le (h : Ready answers world buf msgl list dstOff dstLen srcLen) :
    dstOff + srcLen ≤ pagingBaseSize * (roomyList answers list dstOff srcLen).nFrames ∧
      dstOff + dstLen ≤ pagingBaseSize * (roomyList answers list dstOff srcLen).nFrames := by
  have hrange := h.range
  rw [roomyList]
  split
  · rename_i hbeyond
    obtain ⟨-, -, henough, -⟩ := h.grows hbeyond
    rw [← bufSize_resizedList answers list] at henough
    unfold bufSize at *
    omega
  · unfold bufSize at *
    omega

theorem Meets.noInsertion (h : Ready answers world buf msgl list dstOff dstLen srcLen)
    (hmeets : Meets answers world buf list srcMem srcLen dstOff dstLen path) :
    dstLen = 0 → srcLen = 0 := by
  obtain ⟨after, hroom, hwhole⟩ := h.makeRoom_eq
  obtain ⟨last, -, -, hcalls, -⟩ := hmeets
  have hlast := hcalls fun _ world => some world
  rw [udiBufWrite_eq _ hroom] at hlast
  intro hdstLen
  rcases eq_or_ne srcLen 0 with hzero | hne
  · exact hzero
  · obtain rfl := hdstLen
    rw [hwhole.moveUp_insertion h.srcLen_le.1 hne, bind_none] at hlast
    cases hlast

end

def onePage : SgList where
  nFrames := 1
  bytes := fun _ => 0
  nElements := 1
  compiledConstraints := none

def oneBuffer : World where
  fresh := 2
  msgls := fun buf => if buf = 1 then some ⟨1, 1, 0⟩ else none
  lists := fun index => if index = 0 then some onePage else none
  handles := fun _ => none
  arrays := fun _ => false
  reports := []
  kept := none

def noAnswers : Answers where
  parentConstraints := none
  msglAllocated := false
  sgListAllocated := false
  constrained := false
  resized := (false, onePage)
  remapped := false

theorem ready_oneBuffer {dstOff dstLen srcLen : Nat} (hdst : dstOff + dstLen ≤ 4096)
    (hsrc : dstOff + srcLen ≤ 4096) :
    Ready noAnswers oneBuffer 1 ⟨1, 1, 0⟩ onePage dstOff dstLen srcLen where
  found := rfl
  kernel := rfl
  mapped := rfl
  bound := by decide
  range := hdst
  grows := by
    intro hbeyond
    exact absurd hsrc (not_le.mpr hbeyond)

end Zambesii.UdiBufWrite
