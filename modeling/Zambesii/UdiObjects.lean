import Zambesii.UdiBufWrite
import Zambesii.UdiDma

/-!
What the functions on buffers and DMA handles leave alone, and when they return.
-/

namespace Zambesii.UdiObjects

open Function Nat Option
open KernelTypes UdiBuf UdiDma
open UdiBufWrite (bufSize hasEnoughMemoryForWrite_eq pagesToBytes_of_lt
  bufSize_resizedList)

section

variable {world next last : World} {buf index : Nat}

structure Keeps (world next : World) : Prop where
  reports : next.reports = world.reports
  msgls : ∀ buf, (next.msgls buf).isSome = (world.msgls buf).isSome
  lists : ∀ index, (next.lists index).isSome = (world.lists index).isSome
  handles : next.handles = world.handles
  arrays : next.arrays = world.arrays
  fresh : next.fresh = world.fresh

theorem Keeps.refl (world : World) : Keeps world world :=
  ⟨rfl, fun _ => rfl, fun _ => rfl, rfl, rfl, rfl⟩

theorem Keeps.trans (h : Keeps world next) (h' : Keeps next last) : Keeps world last where
  reports := h'.reports.trans h.reports
  msgls := fun buf => (h'.msgls buf).trans (h.msgls buf)
  lists := fun index => (h'.lists index).trans (h.lists index)
  handles := h'.handles.trans h.handles
  arrays := h'.arrays.trans h.arrays
  fresh := h'.fresh.trans h.fresh

theorem isSome_update {α : Type} {f : Nat → Option α} {i : Nat} (h : (f i).isSome) (a : α)
    (j : Nat) : (update f i (some a) j).isSome = (f j).isSome := by
  rcases eq_or_ne j i with rfl | hne
  · rw [update_self, h]
    rfl
  · rw [update_of_ne hne]

theorem keeps_setMsgl (h : (world.msgls buf).isSome) (msgl : Msgl) :
    Keeps world (world.setMsgl buf (some msgl)) :=
  ⟨rfl, isSome_update h msgl, fun _ => rfl, rfl, rfl, rfl⟩

theorem keeps_setList (h : (world.lists index).isSome) (list : SgList) :
    Keeps world (world.setList index (some list)) :=
  ⟨rfl, fun _ => rfl, isSome_update h list, rfl, rfl, rfl⟩

structure Stores (world next : World) : Prop where
  keeps : Keeps world next
  msgls : next.msgls = world.msgls

theorem Stores.refl (world : World) : Stores world world := ⟨.refl world, rfl⟩

theorem Stores.trans (h : Stores world next) (h' : Stores next last) : Stores world last :=
  ⟨h.keeps.trans h'.keeps, h'.msgls.trans h.msgls⟩

end

section

variable {world next : World} {buf offset nBytes : Nat} {source : Nat → UInt8} {value : UInt8}
  {destOff srcOff dstOff dstLen srcLen : Nat} {srcMem : Option (Nat → UInt8)}

theorem stores_of_store (h : store world buf offset nBytes source = some next) :
    Stores world next := by
  simp only [store, bind_eq_bind, bind_eq_some_iff] at h
  obtain ⟨msgl, -, h⟩ := h
  split at h
  · cases h
  split at h
  · cases h
    exact .refl world
  · obtain ⟨list, hlist, h⟩ := bind_eq_some_iff.mp h
    cases h
    exact ⟨keeps_setList (by rw [hlist]; rfl) _, rfl⟩

theorem stores_of_memset8 (h : memset8 world buf offset value nBytes = some next) :
    Stores world next := by
  simp only [memset8, bind_eq_bind, bind_eq_some_iff] at h
  obtain ⟨msgl, -, h⟩ := h
  split at h
  · exact stores_of_store h
  · cases h

theorem stores_of_write {status : Bool}
    (h : write world source buf offset nBytes = some (status, next)) : Stores world next := by
  simp only [write, bind_eq_bind, bind_eq_some_iff] at h
  obtain ⟨msgl, -, h⟩ := h
  split at h
  · cases h
    exact .refl world
  · obtain ⟨after, hafter, h⟩ := bind_eq_some_iff.mp h
    cases h
    exact stores_of_store hafter

theorem stores_of_memmove (h : memmove world buf destOff srcOff nBytes = some next) :
    Stores world next := by
  simp only [memmove, bind_eq_bind, bind_eq_some_iff] at h
  obtain ⟨msgl, -, h⟩ := h
  split at h
  · split at h
    · cases h
      exact .refl world
    · obtain ⟨list, -, h⟩ := bind_eq_some_iff.mp h
      exact stores_of_store h
  · cases h

theorem stores_of_moveUp (h : moveUp srcLen buf dstOff dstLen world = some next) :
    Stores world next := by
  unfold moveUp at h
  split at h
  · obtain ⟨msgl, -, h⟩ := bind_eq_some_iff.mp h
    exact stores_of_memmove h
  · cases h
    exact .refl world

theorem stores_of_putBytes (h : putBytes srcMem srcLen buf dstOff dstLen world = some next) :
    Stores world next := by
  cases srcMem with
  | none =>
    rcases eq_or_ne srcLen 0 with hzero | hpos
    · rw [putBytes, if_pos hzero] at h
      obtain ⟨msgl, -, h⟩ := bind_eq_some_iff.mp h
      exact stores_of_memmove h
    · rw [putBytes, if_neg hpos] at h
      exact stores_of_memset8 h
  | some source =>
    rcases eq_or_ne srcLen 0 with hzero | hpos
    · rw [putBytes, if_pos hzero] at h
      exact stores_of_memset8 h
    rw [putBytes, if_neg hpos] at h
    obtain ⟨⟨status, after⟩, hafter, h⟩ := bind_eq_some_iff.mp h
    dsimp only at h
    split at h
    · cases h
    split at h
    · exact (stores_of_write hafter).trans (stores_of_memset8 h)
    · cases h
      exact stores_of_write hafter

theorem stores_of_copyMoveUp (h : copyMoveUp srcLen buf dstOff dstLen world = some next) :
    Stores world next := by
  unfold copyMoveUp at h
  split at h
  · exact stores_of_memmove h
  · cases h
    exact .refl world

theorem stores_of_copyIn {src : Nat}
    (h : copyIn src srcOff srcLen buf dstOff world = some next) : Stores world next := by
  simp only [copyIn, bind_eq_bind, bind_eq_some_iff] at h
  obtain ⟨msgl, -, h⟩ := h
  split at h
  · obtain ⟨list, -, h⟩ := bind_eq_some_iff.mp h
    obtain ⟨⟨status, after⟩, hafter, h⟩ := bind_eq_some_iff.mp h
    cases h
    exact stores_of_write hafter
  · cases h

theorem stores_of_copyBytes {src : Nat}
    (h : copyBytes src srcOff srcLen buf dstOff dstLen world = some next) : Stores world next := by
  obtain ⟨moved, hmoved, h⟩ := bind_eq_some_iff.mp h
  exact (stores_of_copyMoveUp hmoved).trans (stores_of_copyIn h)

end

section

variable {world next : World} {buf mapped nFrames offset nBytes : Nat} {source : Nat → UInt8}
  {value : UInt8} {destOff srcOff dstOff dstLen srcLen : Nat} {srcMem : Option (Nat → UInt8)}

structure At (world : World) (buf mapped nFrames : Nat) : Prop where
  found : ∃ index list, world.msgls buf = some ⟨mapped, nFrames, index⟩ ∧
    world.lists index = some list
  mapped_lt : pagingBaseSize * mapped < wordModulus
  nFrames_lt : pagingBaseSize * nFrames < wordModulus

variable (h : At world buf mapped nFrames)

include h

theorem At.of_stores (hstores : Stores world next) : At next buf mapped nFrames := by
  obtain ⟨index, list, hmsgl, hlist⟩ := h.found
  have hkept : (next.lists index).isSome := by
    rw [hstores.keeps.lists, hlist]
    rfl
  obtain ⟨list', hlist'⟩ := isSome_iff_exists.mp hkept
  exact ⟨⟨index, list', by rw [hstores.msgls, hmsgl], hlist'⟩, h.mapped_lt, h.nFrames_lt⟩

theorem At.store_isSome_iff : (store world buf offset nBytes source).isSome ↔
      nBytes = 0 ∨ offset + nBytes ≤ pagingBaseSize * mapped := by
  obtain ⟨index, list, hmsgl, hlist⟩ := h.found
  simp only [store, hmsgl, some_bind]
  split
  · next hnot => simpa [Accessible] using hnot
  next haccessible =>
  have hrange := not_not.mp haccessible
  rcases eq_or_ne nBytes 0 with hzero | hpos
  · simp [hzero]
  · simp [hpos, hlist, hrange.resolve_left hpos]

theorem At.memset8_isSome_iff : (memset8 world buf offset value nBytes).isSome ↔
      (offset + nBytes) % wordModulus ≤ pagingBaseSize * nFrames ∧
        (nBytes = 0 ∨ offset + nBytes ≤ pagingBaseSize * mapped) := by
  obtain ⟨index, list, hmsgl, hlist⟩ := h.found
  have hpages := pagesToBytes_of_lt h.nFrames_lt
  simp only [memset8, hmsgl, hpages, some_bind]
  split
  · next hle => simp only [h.store_isSome_iff, hle, true_and]
  · next hnot => simp [hnot]

theorem At.memmove_isSome_iff : (memmove world buf destOff srcOff nBytes).isSome ↔
      ((destOff + nBytes) % wordModulus ≤ pagingBaseSize * nFrames ∧
        (srcOff + nBytes) % wordModulus ≤ pagingBaseSize * nFrames) ∧
      (nBytes = 0 ∨ srcOff + nBytes ≤ pagingBaseSize * mapped ∧
        destOff + nBytes ≤ pagingBaseSize * mapped) := by
  obtain ⟨index, list, hmsgl, hlist⟩ := h.found
  have hpages := pagesToBytes_of_lt h.nFrames_lt
  simp only [memmove, hmsgl, hpages, some_bind, Accessible]
  split
  · next hall =>
    obtain ⟨hdest, hsrc, haccessible⟩ := hall
    rcases eq_or_ne nBytes 0 with hzero | hpos
    · subst hzero
      simp only [hdest, hsrc, if_true, isSome_some, true_and, true_or]
    · simp only [hpos, if_false, hlist, some_bind, h.store_isSome_iff, hdest, hsrc,
        false_or, true_and] at haccessible ⊢
      simp [haccessible]
  · next hnot =>
    simp only [isSome_none, Bool.false_eq_true, false_iff]
    rintro ⟨⟨hdest, hsrc⟩, hrange⟩
    exact hnot ⟨hdest, hsrc, hrange.imp_right And.left⟩

theorem At.bytesBehind_eq (dstOff dstLen : Nat) : bytesBehind nFrames dstOff dstLen =
      (pagingBaseSize * nFrames + wordModulus - (dstOff + dstLen) % wordModulus) % wordModulus := by
  rw [bytesBehind, pagesToBytes_of_lt h.nFrames_lt]

theorem At.moveUp_isSome_iff : (moveUp srcLen buf dstOff 0 world).isSome ↔
      (memmove world buf ((dstOff + srcLen) % wordModulus) dstOff
        (bytesBehind nFrames dstOff 0)).isSome := by
  obtain ⟨index, list, hmsgl, hlist⟩ := h.found
  rw [moveUp, if_pos rfl, hmsgl, some_bind]

omit h

def WriteFits (mapped nFrames : Nat) (srcMem : Option (Nat → UInt8)) (srcLen dstOff dstLen : Nat) :
    Prop :=
  if dstLen = 0 then
    srcLen = 0 ∧ (dstOff = pagingBaseSize * nFrames ∨ nFrames ≤ mapped)
  else if srcMem.isSome then
    if srcLen = 0 then dstOff + dstLen ≤ pagingBaseSize * mapped
    else dstOff + srcLen + (srcLen - dstLen) ≤ pagingBaseSize * min mapped nFrames
  else if srcLen = 0 then
    dstOff + dstLen < wordModulus ∧
      (dstOff + dstLen = pagingBaseSize * nFrames ∨ nFrames ≤ mapped)
  else dstOff + max srcLen dstLen ≤ pagingBaseSize * mapped

theorem bind_isSome_iff {α β : Type} {a : Option α} {f : α → Option β} :
    (a.bind f).isSome ↔ ∃ x, a = some x ∧ (f x).isSome := by
  cases a with
  | none => simp
  | some x => simp

variable (h : At world buf mapped nFrames)

include h

theorem At.write_true_iff : (∃ next, write world source buf offset nBytes = some (true, next)) ↔
      (offset + nBytes) % wordModulus ≤ pagingBaseSize * nFrames ∧
        (nBytes = 0 ∨ offset + nBytes ≤ pagingBaseSize * mapped) := by
  obtain ⟨index, list, hmsgl, hlist⟩ := h.found
  have hpages : pagesToBytes nFrames = pagingBaseSize * nFrames := pagesToBytes_of_lt h.nFrames_lt
  have hstore : (store world buf offset nBytes source).isSome ↔
      nBytes = 0 ∨ offset + nBytes ≤ pagingBaseSize * mapped := h.store_isSome_iff
  rw [write, hmsgl, some_bind, hpages, ← hstore]
  split
  · next hbeyond =>
    constructor
    · rintro ⟨next, hnext⟩
      cases hnext
    · rintro ⟨hle, -⟩
      exact absurd hle (not_le.mpr hbeyond)
  · next hwithin =>
    rw [and_iff_right (not_lt.mp hwithin)]
    cases store world buf offset nBytes source with
    | none => simp
    | some next => simp

theorem At.putBytes_write_isSome_iff (hpos : srcLen ≠ 0) :
    (putBytes (some source) srcLen buf dstOff dstLen world).isSome ↔
      dstOff + srcLen + (srcLen - dstLen) ≤ pagingBaseSize * min mapped nFrames := by
  have hmapped := h.mapped_lt
  rw [putBytes, if_neg hpos, bind_eq_bind, bind_isSome_iff]
  constructor
  · rintro ⟨⟨status, after⟩, hwrite, hrest⟩
    dsimp only at hrest
    split at hrest
    · cases hrest
    next hstatus =>
    obtain rfl : status = true := by simpa using hstatus
    have hrange := h.write_true_iff.mp ⟨after, hwrite⟩
    have hat := h.of_stores (stores_of_write hwrite)
    split at hrest
    · rw [hat.memset8_isSome_iff] at hrest
      unfold pagingBaseSize wordModulus at *
      omega
    · unfold pagingBaseSize wordModulus at *
      omega
  · intro hle
    have hrange : (dstOff + srcLen) % wordModulus ≤ pagingBaseSize * nFrames ∧
        (srcLen = 0 ∨ dstOff + srcLen ≤ pagingBaseSize * mapped) := by
      unfold pagingBaseSize wordModulus at *
      omega
    obtain ⟨after, hwrite⟩ := h.write_true_iff.mpr hrange
    have hat := h.of_stores (stores_of_write hwrite)
    refine ⟨(true, after), hwrite, ?_⟩
    dsimp only
    rw [if_neg (by simp)]
    split
    · rw [hat.memset8_isSome_iff]
      unfold pagingBaseSize wordModulus at *
      omega
    · rfl

theorem At.insertion_eq_none (hpos : srcLen ≠ 0)
    (hsrcLen : srcLen < wordModulus) (hdstOff : dstOff < wordModulus)
    (hend : endOfWrite dstOff 0 srcLen ≤ pagingBaseSize * nFrames) :
    ¬ ((moveUp srcLen buf dstOff 0 world).bind (putBytes srcMem srcLen buf dstOff 0)).isSome := by
  rw [bind_isSome_iff]
  rintro ⟨moved, hmoved, hput⟩
  have hmove : (moveUp srcLen buf dstOff 0 world).isSome := by
    rw [hmoved]
    rfl
  rw [h.moveUp_isSome_iff, h.memmove_isSome_iff, h.bytesBehind_eq] at hmove
  have hat := h.of_stores (stores_of_moveUp hmoved)
  have hmapped := h.mapped_lt
  have hnFrames := h.nFrames_lt
  have hfits : dstOff + srcLen ≤ pagingBaseSize * mapped := by
    cases srcMem with
    | none =>
      rw [putBytes, if_neg hpos, hat.memset8_isSome_iff, if_pos (pos_of_ne_zero hpos)] at hput
      exact hput.2.resolve_left hpos
    | some source =>
      rw [hat.putBytes_write_isSome_iff hpos] at hput
      unfold pagingBaseSize at *
      omega
  rw [endOfWrite, if_pos (pos_of_ne_zero hpos)] at hend
  unfold pagingBaseSize wordModulus at *
  omega

theorem At.empty_isSome_iff (hdstOff : dstOff < wordModulus)
    (hend : endOfWrite dstOff 0 0 ≤ pagingBaseSize * nFrames) :
    ((moveUp 0 buf dstOff 0 world).bind (putBytes srcMem 0 buf dstOff 0)).isSome ↔
      dstOff = pagingBaseSize * nFrames ∨ nFrames ≤ mapped := by
  have hnFrames := h.nFrames_lt
  have hle : dstOff ≤ pagingBaseSize * nFrames := by
    simpa [endOfWrite, mod_eq_of_lt hdstOff] using hend
  have hmove : ∀ {world : World}, At world buf mapped nFrames →
      ((memmove world buf ((dstOff + 0) % wordModulus) dstOff
        (bytesBehind nFrames dstOff 0)).isSome ↔
          dstOff = pagingBaseSize * nFrames ∨ nFrames ≤ mapped) := by
    intro world hat
    rw [hat.memmove_isSome_iff, hat.bytesBehind_eq]
    unfold pagingBaseSize wordModulus at *
    omega
  rw [bind_isSome_iff]
  constructor
  · rintro ⟨moved, hmoved, -⟩
    rw [← hmove h, ← h.moveUp_isSome_iff, hmoved]
    rfl
  · intro hroom
    have hfirst := (hmove h).mpr hroom
    rw [← h.moveUp_isSome_iff] at hfirst
    obtain ⟨moved, hmoved⟩ := isSome_iff_exists.mp hfirst
    have hat := h.of_stores (stores_of_moveUp hmoved)
    refine ⟨moved, hmoved, ?_⟩
    cases srcMem with
    | none =>
      obtain ⟨index, list, hmsgl, -⟩ := hat.found
      rw [putBytes, if_pos rfl, hmsgl, some_bind]
      have hsame : (dstOff + 0) % wordModulus = dstOff := by rw [add_zero, mod_eq_of_lt hdstOff]
      have hsecond := (hmove hat).mpr hroom
      rw [hsame] at hsecond ⊢
      exact hsecond
    | some source =>
      rw [putBytes, if_pos rfl, hat.memset8_isSome_iff]
      exact ⟨by simpa [endOfWrite] using hend, .inl rfl⟩

theorem At.deletion_isSome_iff (hdstOff : dstOff < wordModulus) (hdstLen : dstLen < wordModulus)
    (hend : (dstOff + dstLen) % wordModulus ≤ pagingBaseSize * nFrames) :
    (putBytes none 0 buf dstOff dstLen world).isSome ↔ dstOff + dstLen < wordModulus ∧
      (dstOff + dstLen = pagingBaseSize * nFrames ∨ nFrames ≤ mapped) := by
  have hmapped := h.mapped_lt
  have hnFrames := h.nFrames_lt
  obtain ⟨index, list, hmsgl, -⟩ := h.found
  rw [putBytes, if_pos rfl, hmsgl, some_bind, h.memmove_isSome_iff, h.bytesBehind_eq]
  unfold pagingBaseSize wordModulus at *
  omega

theorem At.write_isSome_iff (hsrcLen : srcLen < wordModulus)
    (hdstOff : dstOff < wordModulus) (hdstLen : dstLen < wordModulus)
    (hend : endOfWrite dstOff dstLen srcLen ≤ pagingBaseSize * nFrames) :
    ((moveUp srcLen buf dstOff dstLen world).bind
      (putBytes srcMem srcLen buf dstOff dstLen)).isSome ↔
        WriteFits mapped nFrames srcMem srcLen dstOff dstLen := by
  rcases eq_or_ne dstLen 0 with rfl | hdst
  · rw [WriteFits, if_pos rfl]
    rcases eq_or_ne srcLen 0 with rfl | hpos
    · rw [h.empty_isSome_iff hdstOff hend, and_iff_right rfl]
    · exact iff_of_false (h.insertion_eq_none hpos hsrcLen hdstOff hend) fun hfits => hpos hfits.1
  have hmax : (dstOff + if srcLen > dstLen then srcLen else dstLen) % wordModulus ≤
      pagingBaseSize * nFrames := by
    unfold endOfWrite at hend
    split at hend
    · next hlt =>
      rw [if_pos hlt]
      exact hend
    · next hnot =>
      rw [if_neg hnot]
      exact hend
  rw [WriteFits, if_neg hdst, moveUp, if_neg hdst, bind_some]
  have hfill : (memset8 world buf dstOff 0 (if srcLen > dstLen then srcLen else dstLen)).isSome ↔
      dstOff + max srcLen dstLen ≤ pagingBaseSize * mapped := by
    rw [h.memset8_isSome_iff, and_iff_right hmax]
    split <;> omega
  cases srcMem with
  | some source =>
    rw [if_pos (by rfl)]
    rcases eq_or_ne srcLen 0 with rfl | hpos
    · rw [putBytes, if_pos rfl, if_pos rfl, hfill, zero_max]
    · rw [if_neg hpos, h.putBytes_write_isSome_iff hpos]
  | none =>
    rw [if_neg (by simp)]
    rcases eq_or_ne srcLen 0 with rfl | hpos
    · rw [if_pos rfl, h.deletion_isSome_iff hdstOff hdstLen (by simpa [endOfWrite] using hend)]
    · rw [putBytes, if_neg hpos, if_neg hpos, hfill]

omit h

/-- The memory that a copy touches is there; a range that is not in the buffer is passed over. -/
def CopyFits (sourceMapped mapped nFrames srcOff srcLen dstOff dstLen : Nat) : Prop :=
  srcOff + srcLen ≤ pagingBaseSize * sourceMapped ∧
    if dstLen = 0 then dstOff + 2 * srcLen ≤ pagingBaseSize * min mapped nFrames
    else pagingBaseSize * nFrames < (dstOff + srcLen) % wordModulus ∨
      dstOff + srcLen ≤ pagingBaseSize * mapped

variable (h : At world buf mapped nFrames)

include h

theorem At.write_returns_iff (hpos : nBytes ≠ 0) : (write world source buf offset nBytes).isSome ↔
      pagingBaseSize * nFrames < (offset + nBytes) % wordModulus ∨
        offset + nBytes ≤ pagingBaseSize * mapped := by
  obtain ⟨index, list, hmsgl, hlist⟩ := h.found
  have hpages : pagesToBytes nFrames = pagingBaseSize * nFrames := pagesToBytes_of_lt h.nFrames_lt
  have hstore : (store world buf offset nBytes source).isSome ↔
      nBytes = 0 ∨ offset + nBytes ≤ pagingBaseSize * mapped := h.store_isSome_iff
  rw [write, hmsgl, some_bind, hpages]
  split
  · next hbeyond => simp [hbeyond]
  next hwithin =>
  rw [or_iff_right hpos] at hstore
  rw [or_iff_right hwithin, ← hstore]
  cases store world buf offset nBytes source with
  | none => simp
  | some next => simp

theorem At.copyMoveUp_isSome_iff (hpos : srcLen ≠ 0) :
    (copyMoveUp srcLen buf dstOff dstLen world).isSome ↔
      (dstLen = 0 → dstOff + 2 * srcLen ≤ pagingBaseSize * min mapped nFrames) := by
  have hmapped := h.mapped_lt
  unfold copyMoveUp
  split
  · next hdst =>
    rw [h.memmove_isSome_iff]
    unfold pagingBaseSize wordModulus at *
    omega
  · next hdst => simp [hdst]

theorem At.copyIn_isSome_iff {src : Nat} {msgl : Msgl}
    (hmsgl : world.msgls src = some msgl) (hlist : (world.lists msgl.sGListIndex).isSome)
    (hpos : srcLen ≠ 0) : (copyIn src srcOff srcLen buf dstOff world).isSome ↔
      srcOff + srcLen ≤ pagingBaseSize * msgl.mapped ∧
        (pagingBaseSize * nFrames < (dstOff + srcLen) % wordModulus ∨
          dstOff + srcLen ≤ pagingBaseSize * mapped) := by
  obtain ⟨list, hlist⟩ := isSome_iff_exists.mp hlist
  have hwrite : (write world (fun i => list.bytes (srcOff + i)) buf dstOff srcLen).isSome ↔ _ :=
    h.write_returns_iff hpos
  rw [← hwrite, copyIn, hmsgl, some_bind]
  rcases em (srcOff + srcLen ≤ pagingBaseSize * msgl.mapped) with hsource | hsource
  · have haccessible : Accessible msgl srcOff srcLen := .inr hsource
    rw [if_pos haccessible, hlist, some_bind, and_iff_right hsource]
    cases write world (fun i => list.bytes (srcOff + i)) buf dstOff srcLen with
    | none => simp
    | some written => simp
  · simp [Accessible, hpos, hsource]

theorem At.copyBytes_isSome_iff {src : Nat} {msgl : Msgl}
    (hmsgl : world.msgls src = some msgl) (hlist : (world.lists msgl.sGListIndex).isSome)
    (hpos : srcLen ≠ 0) : (copyBytes src srcOff srcLen buf dstOff dstLen world).isSome ↔
      CopyFits msgl.mapped mapped nFrames srcOff srcLen dstOff dstLen := by
  have hrest : ∀ moved, Stores world moved →
      ((copyIn src srcOff srcLen buf dstOff moved).isSome ↔
        srcOff + srcLen ≤ pagingBaseSize * msgl.mapped ∧
          (pagingBaseSize * nFrames < (dstOff + srcLen) % wordModulus ∨
            dstOff + srcLen ≤ pagingBaseSize * mapped)) := by
    intro moved hstores
    have hlist' : (moved.lists msgl.sGListIndex).isSome := by
      rw [hstores.keeps.lists]
      exact hlist
    exact (h.of_stores hstores).copyIn_isSome_iff (by rw [hstores.msgls, hmsgl]) hlist' hpos
  rw [copyBytes, bind_isSome_iff, CopyFits]
  constructor
  · rintro ⟨moved, hmoved, hcopied⟩
    have hmove : (copyMoveUp srcLen buf dstOff dstLen world).isSome := by
      rw [hmoved]
      rfl
    rw [h.copyMoveUp_isSome_iff hpos] at hmove
    obtain ⟨hsource, hdest⟩ := (hrest moved (stores_of_copyMoveUp hmoved)).mp hcopied
    refine ⟨hsource, ?_⟩
    split
    · next hdst => exact hmove hdst
    · exact hdest
  · rintro ⟨hsource, hdest⟩
    have hmove : (copyMoveUp srcLen buf dstOff dstLen world).isSome := by
      rw [h.copyMoveUp_isSome_iff hpos]
      intro hdst
      rwa [if_pos hdst] at hdest
    obtain ⟨moved, hmoved⟩ := isSome_iff_exists.mp hmove
    refine ⟨moved, hmoved, (hrest moved (stores_of_copyMoveUp hmoved)).mpr ⟨hsource, ?_⟩⟩
    split at hdest
    · unfold pagingBaseSize wordModulus at *
      omega
    · exact hdest

omit h

end

section

variable {answers : Answers} {world : World} {buf : Nat} {msgl : Msgl} {list : SgList}
  {dstOff dstLen srcLen : Nat}

def Room (answers : Answers) (nFrames endOf : Nat) : Prop :=
  endOf ≤ pagingBaseSize * nFrames ∨
    answers.resized.1 = true ∧ endOf ≤ pagingBaseSize * answers.resized.2.nFrames ∧
      answers.remapped = true

instance (answers : Answers) (nFrames endOf : Nat) : Decidable (Room answers nFrames endOf) :=
  inferInstanceAs (Decidable (_ ∨ _))

/-- The frames of a buffer once there is room, of the two numbers before and after the kernel
gave it. -/
def roomy (answers : Answers) (before nFrames endOf : Nat) : Nat :=
  if endOf ≤ pagingBaseSize * nFrames then before else answers.resized.2.nFrames

/-- The frames of a buffer when there is no room. -/
def unroomy (answers : Answers) (nFrames : Nat) : Nat :=
  if answers.resized.1 = true then answers.resized.2.nFrames else nFrames

structure Makes (answers : Answers) (world : World) (buf : Nat) (msgl : Msgl) (list : SgList)
    (endOf : Nat) (next : World) : Prop where
  keeps : Keeps world next
  others : ∀ other ≠ buf, next.msgls other = world.msgls other
  found : ∃ mapped nFrames list', next.msgls buf = some ⟨mapped, nFrames, msgl.sGListIndex⟩ ∧
    next.lists msgl.sGListIndex = some list' ∧
      list'.compiledConstraints = list.compiledConstraints ∧
        (Room answers list.nFrames endOf → mapped = roomy answers msgl.mapped list.nFrames endOf ∧
          nFrames = roomy answers list.nFrames list.nFrames endOf) ∧
        (¬ Room answers list.nFrames endOf → nFrames = unroomy answers list.nFrames)

theorem endOfWrite_lt (dstOff dstLen srcLen : Nat) :
    endOfWrite dstOff dstLen srcLen < wordModulus := by
  unfold endOfWrite
  split <;> exact mod_lt _ wordModulus_pos

theorem wanted_ne_zero (hbound : bufSize list < wordModulus)
    (hbeyond : bufSize list < endOfWrite dstOff dstLen srcLen) :
    (list.nFrames + bytesToPages (endOfWrite dstOff dstLen srcLen - bufSize list)) %
      wordModulus ≠ 0 := by
  have hend := endOfWrite_lt dstOff dstLen srcLen
  unfold bytesToPages bufSize pagingBaseSize wordModulus at *
  split <;> omega

theorem resizeScatterGatherList_eq {index nFrames : Nat} (hwanted : nFrames ≠ 0)
    (hlist : world.lists index = some list) : resizeScatterGatherList answers index nFrames world =
      (answers.resized.1, world.setList index (some (answers.resizedList list))) := by
  rw [resizeScatterGatherList, if_neg hwanted, hlist]

theorem remapScatterGatherList_eq (hlist : world.lists msgl.sGListIndex = some list) :
    remapScatterGatherList answers buf msgl world =
      if answers.remapped = true then
        (true, world.setMsgl buf (some { msgl with mapped := list.nFrames }))
      else (false, world) := by
  rw [remapScatterGatherList, hlist]

theorem makes_of_msgl {next : World} {mapped nFrames endOf : Nat} {list' : SgList}
    (hkeeps : Keeps world next) (hothers : ∀ other ≠ buf, next.msgls other = world.msgls other)
    (hmsgl : next.msgls buf = some ⟨mapped, nFrames, msgl.sGListIndex⟩)
    (hlist : next.lists msgl.sGListIndex = some list')
    (hconstraints : list'.compiledConstraints = list.compiledConstraints)
    (hroom : Room answers list.nFrames endOf →
      mapped = roomy answers msgl.mapped list.nFrames endOf ∧
        nFrames = roomy answers list.nFrames list.nFrames endOf)
    (hnone : ¬ Room answers list.nFrames endOf → nFrames = unroomy answers list.nFrames) :
    Makes answers world buf msgl list endOf next :=
  ⟨hkeeps, hothers, mapped, nFrames, list', hmsgl, hlist, hconstraints, hroom, hnone⟩

theorem grow_spec (hmsgl : world.msgls buf = some msgl) (hframes : msgl.nFrames = list.nFrames)
    (hlist : world.lists msgl.sGListIndex = some list) (hbound : bufSize list < wordModulus)
    (hresized : bufSize answers.resized.2 < wordModulus)
    (hbeyond : bufSize list < endOfWrite dstOff dstLen srcLen) :
    ∃ next, grow answers buf dstOff dstLen srcLen
        (endOfWrite dstOff dstLen srcLen - bufSize list) world =
          some (decide (Room answers list.nFrames (endOfWrite dstOff dstLen srcLen)), next) ∧
      Makes answers world buf msgl list (endOfWrite dstOff dstLen srcLen) next := by
  have hnot : ¬ endOfWrite dstOff dstLen srcLen ≤ pagingBaseSize * list.nFrames :=
    not_le.mpr hbeyond
  have hroomIff : Room answers list.nFrames (endOfWrite dstOff dstLen srcLen) ↔
      answers.resized.1 = true ∧
        endOfWrite dstOff dstLen srcLen ≤ pagingBaseSize * answers.resized.2.nFrames ∧
          answers.remapped = true := or_iff_right hnot
  let resized := world.setList msgl.sGListIndex (some (answers.resizedList list))
  have hresize : resizeScatterGatherList answers msgl.sGListIndex
      ((msgl.nFrames + bytesToPages (endOfWrite dstOff dstLen srcLen - bufSize list)) %
        wordModulus) world = (answers.resized.1, resized) := by
    rw [hframes]
    exact resizeScatterGatherList_eq (wanted_ne_zero hbound hbeyond) hlist
  have hkeeps : Keeps world resized := keeps_setList (by rw [hlist]; rfl) _
  have hlist' : resized.lists msgl.sGListIndex = some (answers.resizedList list) :=
    update_self ..
  have hstart : grow answers buf dstOff dstLen srcLen
      (endOfWrite dstOff dstLen srcLen - bufSize list) world =
        if answers.resized.1 = true then
          (hasEnoughMemoryForWrite resized buf dstOff dstLen srcLen).bind fun enough =>
            if enough.1.isSome then some (false, enough.2)
            else (enough.2.msgls buf).bind fun msgl =>
              some (remapScatterGatherList answers buf msgl enough.2)
        else some (false, resized) := by
    rw [grow, hmsgl, some_bind, hresize]
    cases answers.resized.1 <;> rfl
  rw [hstart]
  rcases Bool.eq_false_or_eq_true answers.resized.1 with hdone | hfailed
  · rw [if_pos hdone]
    have hsame : resized.msgls buf = some msgl := hmsgl
    let last := resized.setMsgl buf (some { msgl with nFrames := answers.resized.2.nFrames })
    have hsecond : hasEnoughMemoryForWrite resized buf dstOff dstLen srcLen = some
        (if bufSize answers.resized.2 < endOfWrite dstOff dstLen srcLen then
          some (endOfWrite dstOff dstLen srcLen - bufSize answers.resized.2) else none, last) := by
      have hfits := hresized
      have henough := hasEnoughMemoryForWrite_eq dstOff dstLen srcLen hsame hlist' hfits
      exact henough
    have hfound : (resized.msgls buf).isSome := by
      rw [hsame]
      rfl
    have hlastKeeps : Keeps world last := hkeeps.trans (keeps_setMsgl hfound _)
    have hlastOthers : ∀ other ≠ buf, last.msgls other = world.msgls other :=
      fun other hne => update_of_ne hne ..
    have hlast : last.msgls buf = some { msgl with nFrames := answers.resized.2.nFrames } :=
      update_self ..
    simp only [hsecond, bind_some]
    rcases lt_or_ge (bufSize answers.resized.2) (endOfWrite dstOff dstLen srcLen)
      with hshort | henough
    · have hno : ¬ Room answers list.nFrames (endOfWrite dstOff dstLen srcLen) := by
        rw [hroomIff]
        exact fun hroom => absurd hroom.2.1 (not_le.mpr hshort)
      rw [if_pos hshort, decide_eq_false hno]
      exact ⟨last, rfl, makes_of_msgl hlastKeeps hlastOthers hlast hlist' rfl
        (fun hroom => absurd hroom hno) fun _ => (if_pos hdone).symm⟩
    rw [if_neg (not_lt.mpr henough), hlast, bind_some, if_neg (by simp)]
    have hlastList := hlist'
    have hremap : remapScatterGatherList answers buf
        { msgl with nFrames := answers.resized.2.nFrames } last = _ :=
      remapScatterGatherList_eq hlastList
    rw [hremap]
    rcases Bool.eq_false_or_eq_true answers.remapped with hremapped | hunmapped
    · have hroom : Room answers list.nFrames (endOfWrite dstOff dstLen srcLen) :=
        hroomIff.mpr ⟨hdone, henough, hremapped⟩
      rw [if_pos hremapped, decide_eq_true hroom]
      refine ⟨_, rfl, makes_of_msgl (hlastKeeps.trans (keeps_setMsgl (by rw [hlast]; rfl) _)) ?_
        (update_self ..) hlist' rfl ?_ fun hno => absurd hroom hno⟩
      · intro other hne
        exact (update_of_ne hne ..).trans (hlastOthers other hne)
      · intro _
        rw [roomy, roomy, if_neg hnot, if_neg hnot]
        exact ⟨rfl, rfl⟩
    · have hno : ¬ Room answers list.nFrames (endOfWrite dstOff dstLen srcLen) := by
        rw [hroomIff, hunmapped]
        simp
      rw [if_neg (by simp [hunmapped]), decide_eq_false hno]
      exact ⟨last, rfl, makes_of_msgl hlastKeeps hlastOthers hlast hlist' rfl
        (fun hroom => absurd hroom hno) fun _ => (if_pos hdone).symm⟩
  · have hno : ¬ Room answers list.nFrames (endOfWrite dstOff dstLen srcLen) := by
      rw [hroomIff, hfailed]
      simp
    rw [if_neg (by simp [hfailed]), decide_eq_false hno]
    refine ⟨resized, rfl, ?_⟩
    refine makes_of_msgl hkeeps (fun _ _ => rfl) hmsgl hlist' rfl (fun hroom => absurd hroom hno) ?_
    intro _
    rw [unroomy, if_neg (by simp [hfailed]), hframes]

theorem makeRoom_spec (hmsgl : world.msgls buf = some msgl)
    (hlist : world.lists msgl.sGListIndex = some list) (hbound : bufSize list < wordModulus)
    (hresized : bufSize answers.resized.2 < wordModulus) :
    ∃ next, makeRoom answers buf dstOff dstLen srcLen world =
          some (decide (Room answers list.nFrames (endOfWrite dstOff dstLen srcLen)), next) ∧
      Makes answers world buf msgl list (endOfWrite dstOff dstLen srcLen) next := by
  have hfirst := hasEnoughMemoryForWrite_eq dstOff dstLen srcLen hmsgl hlist hbound
  have hkeeps : Keeps world (world.setMsgl buf (some { msgl with nFrames := list.nFrames })) :=
    keeps_setMsgl (by rw [hmsgl]; rfl) _
  have hothers : ∀ other ≠ buf,
      (world.setMsgl buf (some { msgl with nFrames := list.nFrames })).msgls other =
        world.msgls other :=
    fun other hne => update_of_ne hne ..
  have hfound : (world.setMsgl buf (some { msgl with nFrames := list.nFrames })).msgls buf =
      some { msgl with nFrames := list.nFrames } :=
    update_self ..
  rcases lt_or_ge (bufSize list) (endOfWrite dstOff dstLen srcLen) with hbeyond | hwithin
  · rw [if_pos hbeyond] at hfirst
    obtain ⟨next, hgrow, hmakes⟩ := grow_spec hfound rfl hlist hbound hresized hbeyond
    refine ⟨next, ?_, hkeeps.trans hmakes.keeps, ?_, hmakes.found⟩
    · rw [makeRoom, hfirst, some_bind]
      exact hgrow
    · intro other hne
      rw [hmakes.others other hne, hothers other hne]
  rw [if_neg (not_lt.mpr hwithin)] at hfirst
  have hroom : Room answers list.nFrames (endOfWrite dstOff dstLen srcLen) := .inl hwithin
  have hwithin' : endOfWrite dstOff dstLen srcLen ≤ pagingBaseSize * list.nFrames := hwithin
  refine ⟨_, ?_, hkeeps, hothers, msgl.mapped, list.nFrames, list, hfound, hlist, rfl, ?_,
    fun hno => absurd hroom hno⟩
  · rw [makeRoom, hfirst, some_bind, decide_eq_true hroom]
  · intro _
    rw [roomy, roomy, if_pos hwithin', if_pos hwithin']
    exact ⟨rfl, rfl⟩

end

end Zambesii.UdiObjects
