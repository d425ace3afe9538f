import Zambesii.SharedMapping
import Zambesii.Unmap

/-!
`ipc::dispatchDataHeader` and `ipc::destroyDataHeader`: the data of a message is mapped from the
sender's address space into the receiver's, to be copied by the kernel or read in place, and is
unmapped afterwards.
-/

namespace Zambesii.DataHeader

open KernelTypes PageAttributes WalkerPageRanger SharedMapping
open Unmap

inductive Method
  | buffer
  | mapAndCopy
  | mapAndRead
deriving DecidableEq

/-- `sDataHeader`, without the sender's thread. -/
structure Header where
  method : Method
  foreignVaddr : Nat
  nBytes : Nat

/-- What the code asks about the two processes. `source` is the address space of the sender as
`getStream` finds it, `sameVaddrSpace` the test before the copy without a mapping, and
`kernelDomain` is that of the receiver. -/
structure Parties where
  source : Option Source
  sameVaddrSpace : Bool
  kernelDomain : Bool

def bytesToPages (nBytes : Nat) : Nat :=
  nBytes / pagingBaseSize + if nBytes % pagingBaseSize ≠ 0 then 1 else 0

def pagingBaseMaskLow : Nat := 0xFFF

/-- `sourceMappingNPages`, as both functions compute it. -/
def sourceMappingNPages (header : Header) : Nat :=
  let nPages := bytesToPages header.nBytes
  let nPages :=
    if header.foreignVaddr &&& pagingBaseMaskLow ≠ 0 then nPages + 1 else nPages
  if header.nBytes &&& pagingBaseMaskLow ≠ 0 then nPages + 1 else nPages

def vaddrRangeIsLoose : Nat → Nat → Walker → Bool × Walker
  | 0, _, w => (true, w)
  | nPages + 1, vaddr, w =>
    let found := lookup w vaddr
    if found.1.status ≠ .unmapped then (false, found.2)
    else vaddrRangeIsLoose nPages ((vaddr + pagingBaseSize) % wordModulus) found.2

def mappingFlags (parties : Parties) : Nat :=
  pageAttribPresent ||| if parties.kernelDomain then pageAttribSupervisor else 0

def adjustVaddr (vaddr paddr : Nat) : Nat :=
  (vaddr &&& pagingBaseMaskHigh) + (paddr &&& pagingBaseMaskLow)

/-- A dispatch: its error, the mapping that the data is read through with the tables of the
receiver at that time, the tables when it returns, and the ranges that were asked of `getPages`
and given to `releasePages`. -/
structure Dispatch where
  error : Kerror
  mapping : Option (Nat × Walker)
  walker : Walker
  obtained : List (Nat × Nat)
  released : List (Nat × Nat)

/-- The part of `dispatchDataHeader` from the shared mapping on. -/
def dispatchShared (header : Header) (shared : Outcome) : Dispatch :=
  if shared.ret = 0 then ⟨.unknown, none, shared.walker, shared.obtained, shared.released⟩
  else
    let targetMapping := adjustVaddr shared.ret header.foreignVaddr
    if header.method = .mapAndRead then
      ⟨.success, some (targetMapping, shared.walker), shared.walker, shared.obtained,
        shared.released⟩
    else
      ⟨.success, some (targetMapping, shared.walker),
        (unmap shared.walker targetMapping (sourceMappingNPages header)).walker, shared.obtained,
        shared.released ++ [(targetMapping, sourceMappingNPages header)]⟩

/-- `dispatchDataHeader`. `loose` is what `getPages` returns when it is asked. -/
def dispatchDataHeader (parties : Parties) (w : Walker) (header : Header) (buffer loose : Nat) :
    Dispatch :=
  if header.method = .buffer then ⟨.success, none, w, [], []⟩
  else
    let sourceMapping := header.foreignVaddr &&& pagingBaseMaskHigh
    let nPages := sourceMappingNPages header
    match parties.source with
    | none => ⟨.notFound, none, w, [], []⟩
    | some src =>
      if header.method = .mapAndCopy then
        if parties.sameVaddrSpace then ⟨.success, none, w, [], []⟩
        else
          dispatchShared header
            (createSharedMappingTo src w sourceMapping nPages (mappingFlags parties) 0 loose)
      else
        let range := vaddrRangeIsLoose nPages buffer w
        if !range.1 then ⟨.invalidOperation, none, range.2, [], []⟩
        else
          dispatchShared header
            (createSharedMappingTo src range.2 sourceMapping nPages (mappingFlags parties) buffer
              loose)

def destroyDataHeader (w : Walker) (header : Header) (buffer : Nat) : Walker :=
  if header.method = .mapAndRead then (unmap w buffer (sourceMappingNPages header)).walker else w

def finished (header : Header) (buffer : Nat) (dispatch : Dispatch) : Walker :=
  if dispatch.error = .success then destroyDataHeader dispatch.walker header buffer
  else dispatch.walker

def ContainsByte (header : Header) (page : Nat) : Prop :=
  ∃ addr, header.foreignVaddr ≤ addr ∧ addr < header.foreignVaddr + header.nBytes ∧
    addr / pagingBaseSize = page

/-- The page of the mapping at `vaddr` that shows a page with a byte of the data. -/
def ShowsByte (header : Header) (vaddr page : Nat) : Prop :=
  ∃ i, ContainsByte header (header.foreignVaddr / pagingBaseSize + i) ∧
    page = vaddr / pagingBaseSize + i

/-- What is asked of a dispatch and of the end of it. Through the mapping, the pages that have a
byte of the data show the frames that back them, and no other page is changed. In the end those
pages are unmapped, every other page is as it was, and what was obtained was released. -/
structure Right (parties : Parties) (w : Walker) (header : Header) (dispatch : Dispatch)
    (after : Walker) : Prop where
  mapped : ∀ src ∈ parties.source, ∀ vaddr during, dispatch.mapping = some (vaddr, during) →
    ∀ i, ContainsByte header (header.foreignVaddr / pagingBaseSize + i) → ∃ frame attribs,
      (lookupIn src w ((header.foreignVaddr / pagingBaseSize + i) * pagingBaseSize)).1 =
          ⟨.backed, some (frame, attribs)⟩ ∧
        during.pageEntry (vaddr / pagingBaseSize + i) = frame ||| encodeFlags (mappingFlags parties)
  others : ∀ vaddr during, dispatch.mapping = some (vaddr, during) → ∀ page, page < windowPage →
    ¬ ShowsByte header vaddr page → during.pageEntry page = w.pageEntry page
  unmapped : ∀ vaddr during, dispatch.mapping = some (vaddr, during) →
    ∀ page, ShowsByte header vaddr page → after.pageEntry page = 0
  kept : ∀ page, page < windowPage →
    (∀ vaddr during, dispatch.mapping = some (vaddr, during) → ¬ ShowsByte header vaddr page) →
      after.pageEntry page = w.pageEntry page
  returned : dispatch.released = dispatch.obtained

section

variable (header : Header)

def spannedPages : Nat :=
  (header.foreignVaddr % pagingBaseSize + header.nBytes + (pagingBaseSize - 1)) / pagingBaseSize

theorem and_pagingBaseMaskLow (n : Nat) : n &&& pagingBaseMaskLow = n % pagingBaseSize :=
  Nat.and_two_pow_sub_one_eq_mod n 12

theorem containsByte_iff (hpos : 0 < header.nBytes) (i : Nat) :
    ContainsByte header (header.foreignVaddr / pagingBaseSize + i) ↔ i < spannedPages header := by
  unfold ContainsByte spannedPages pagingBaseSize
  constructor
  · rintro ⟨addr, hle, hlt, hpage⟩
    omega
  · intro hi
    rcases eq_zero_or_pos i with rfl | hlater
    · exact ⟨header.foreignVaddr, le_refl _, by omega, by omega⟩
    · exact ⟨(header.foreignVaddr / 4096 + i) * 4096, by omega, by omega, by omega⟩

theorem sourceMappingNPages_eq :
    sourceMappingNPages header = header.nBytes / pagingBaseSize +
      (if header.nBytes % pagingBaseSize ≠ 0 then 2 else 0) +
        if header.foreignVaddr % pagingBaseSize ≠ 0 then 1 else 0 := by
  unfold sourceMappingNPages bytesToPages
  simp only [and_pagingBaseMaskLow]
  split_ifs <;> omega

theorem spannedPages_le : spannedPages header ≤ sourceMappingNPages header := by
  rw [sourceMappingNPages_eq]
  unfold spannedPages pagingBaseSize
  split_ifs <;> omega

theorem spannedPages_eq_iff :
    spannedPages header = sourceMappingNPages header ↔ header.nBytes % pagingBaseSize = 0 := by
  rw [sourceMappingNPages_eq]
  unfold spannedPages pagingBaseSize
  split_ifs <;> omega

theorem sourceMappingNPages_pos (hpos : 0 < header.nBytes) : 0 < sourceMappingNPages header := by
  rw [sourceMappingNPages_eq]
  unfold pagingBaseSize
  split_ifs <;> omega

end

section

variable {src : Source} {w : Walker}

theorem sourceEntry_moved (hw : Sharing src w) (window : Nat) {page : Nat}
    (hpage : page < windowPage) :
    (view (w.setLevel1Modifier window) (src.entries (w.setLevel1Modifier window))).pageEntry page =
      (view w (src.entries w)).pageEntry page := by
  exact pageEntry_setLevel1Modifier _ hw.source window page hpage

theorem lookupIn_moved (hw : Sharing src w) (window : Nat) {vaddr : Nat}
    (hvaddr : vaddr / pagingBaseSize < windowPage) :
    (lookupIn src (w.setLevel1Modifier window) vaddr).1 = (lookupIn src w vaddr).1 := by
  rw [lookupIn_found (hw.moved window) hvaddr, lookupIn_found hw hvaddr,
    sourceEntry_moved hw window hvaddr]

theorem served_moved (hw : Sharing src w) (window : Nat) {srcVaddr nPages target : Nat}
    (hsrc : srcVaddr / pagingBaseSize + nPages ≤ windowPage)
    (h : Served src w srcVaddr nPages target) :
    Served src (w.setLevel1Modifier window) srcVaddr nPages target := by
  have hbacking : ∀ i, i < nPages →
      backing src (w.setLevel1Modifier window) (srcVaddr / pagingBaseSize + i) =
        backing src w (srcVaddr / pagingBaseSize + i) :=
    fun i hi => congrArg frameOf (sourceEntry_moved hw window (by omega))
  refine ⟨h.room, ?_, ?_⟩
  · intro i hi
    rw [lookupIn_moved hw window (by rw [page_add]; omega)]
    exact h.backed i hi
  · intro i hi
    obtain ⟨hoverwritten, hreplaced⟩ := h.undisturbed i hi
    constructor
    · intro hsees j hj hpage
      rw [hbacking j (by omega), hbacking i hi]
      exact hoverwritten ((sees_moved src w window _).1 hsees) j hj hpage
    · intro hsees
      rw [hbacking i hi]
      exact hreplaced ((sees_moved src w window _).1 hsees)

theorem setLevel1Modifier_setLevel1Modifier (w : Walker) (window window' : Nat) :
    (w.setLevel1Modifier window).setLevel1Modifier window' = w.setLevel1Modifier window' := by
  have htables : ((w.setLevel1Modifier window).setLevel1Modifier window').tables =
      (w.setLevel1Modifier window').tables := by
    funext frame index
    show (if frame = w.windowFrame ∧ index = pagingNEntries - 1 then window' else
      if frame = w.windowFrame ∧ index = pagingNEntries - 1 then window else _) =
        if frame = w.windowFrame ∧ index = pagingNEntries - 1 then window' else _
    split_ifs <;> rfl
  show { w with tables := ((w.setLevel1Modifier window).setLevel1Modifier window').tables } = _
  rw [htables]
  rfl

theorem served_moved_iff (hw : Sharing src w) (window : Nat) {srcVaddr nPages target : Nat}
    (hsrc : srcVaddr / pagingBaseSize + nPages ≤ windowPage) :
    Served src (w.setLevel1Modifier window) srcVaddr nPages target ↔
      Served src w srcVaddr nPages target := by
  refine ⟨?_, served_moved hw window hsrc⟩
  intro h
  have hback := served_moved (hw.moved window) w.level1Modifier hsrc h
  rwa [setLevel1Modifier_setLevel1Modifier, setLevel1Modifier_self] at hback

theorem lookup_moved (hw : WellFormed w) (window : Nat) {vaddr : Nat}
    (hvaddr : vaddr / pagingBaseSize < windowPage) :
    (lookup (w.setLevel1Modifier window) vaddr).1 = (lookup w vaddr).1 :=
  lookupIn_moved (Sharing.ofOwn hw) window hvaddr

theorem vaddrRangeIsLoose_spec (hw : WellFormed w) {nPages vaddr : Nat}
    (hend : vaddr / pagingBaseSize + nPages ≤ windowPage) :
    (∃ window, (vaddrRangeIsLoose nPages vaddr w).2 = w.setLevel1Modifier window) ∧
      ((vaddrRangeIsLoose nPages vaddr w).1 = true ↔
        ∀ i, i < nPages → (lookup w (vaddr + i * pagingBaseSize)).1.status = .unmapped) := by
  induction nPages generalizing vaddr w with
  | zero =>
    refine ⟨⟨w.level1Modifier, (setLevel1Modifier_self w).symm⟩, ?_⟩
    exact iff_of_true rfl fun i hi => absurd hi (Nat.not_lt_zero i)
  | succ nPages ih =>
    obtain ⟨window, hwalker⟩ := lookup_walker w vaddr
    obtain ⟨hnext, hend'⟩ := next_vaddr hend
    rw [vaddrRangeIsLoose, hwalker]
    split_ifs with hfirst
    · refine ⟨⟨window, rfl⟩, iff_of_false (fun h => h) fun h => hfirst ?_⟩
      have hzero := h 0 (Nat.succ_pos _)
      rwa [Nat.zero_mul, Nat.add_zero] at hzero
    rw [not_not] at hfirst
    have hmoved : WellFormed (w.setLevel1Modifier window) := hw.writeTable _ _ _
    obtain ⟨⟨window', hwindow'⟩, hiff⟩ := ih hmoved (hnext ▸ hend')
    rw [setLevel1Modifier_setLevel1Modifier] at hwindow'
    refine ⟨⟨window', hwindow'⟩, ?_⟩
    rw [hiff, hnext]
    have hpage : ∀ i, vaddr + pagingBaseSize + i * pagingBaseSize =
        vaddr + (i + 1) * pagingBaseSize := by
      intro i
      rw [Nat.add_mul, Nat.one_mul]
      omega
    constructor
    · intro hrest i hi
      cases i with
      | zero =>
        exact hfirst
      | succ i =>
        have h := hrest i (by omega)
        rwa [hpage, lookup_moved hw window (by rw [page_add]; omega)] at h
    · intro hall i hi
      rw [hpage, lookup_moved hw window (by rw [page_add]; omega)]
      exact hall (i + 1) (by omega)

end

section

variable {parties : Parties} {w : Walker} {header : Header} {src : Source}

theorem encodeFlags_mappingFlags_ne (parties : Parties) :
    encodeFlags (mappingFlags parties) ≠ 0 := by
  unfold mappingFlags
  cases parties.kernelDomain <;> decide

theorem right_unmapped {error : Kerror} {walker after : Walker}
    (hafter : ∀ page, page < windowPage → after.pageEntry page = w.pageEntry page) :
    Right parties w header ⟨error, none, walker, [], []⟩ after := by
  constructor
  · intro _ _ _ _ h
    cases h
  · intro _ _ h
    cases h
  · intro _ _ h
    cases h
  · intro page hpage _
    exact hafter page hpage
  · rfl

theorem showsByte_iff (hpos : 0 < header.nBytes) (vaddr page : Nat) : ShowsByte header vaddr page ↔
      vaddr / pagingBaseSize ≤ page ∧ page < vaddr / pagingBaseSize + spannedPages header := by
  unfold ShowsByte
  simp only [containsByte_iff header hpos]
  constructor
  · rintro ⟨i, hi, rfl⟩
    omega
  · rintro ⟨hle, hlt⟩
    exact ⟨page - vaddr / pagingBaseSize, by omega, by omega⟩

section

variable {window vaddr target : Nat} {dispatch : Dispatch} {after : Walker}
variable (hsource : parties.source = some src) (hw : Sharing src w) (hpos : 0 < header.nBytes)
variable (hsrc : header.foreignVaddr / pagingBaseSize + sourceMappingNPages header ≤ windowPage)
variable (htmp : target / pagingBaseSize + sourceMappingNPages header ≤ windowPage)
variable (hne : target ≠ 0)
variable (hroom : missing w (target / pagingBaseSize) (sourceMappingNPages header) ≤
  w.pageTables.length)
variable (hmapping : dispatch.mapping = some (vaddr,
  afterTurns src (mappingFlags parties) (sourceMappingNPages header)
    (header.foreignVaddr / pagingBaseSize * pagingBaseSize) target (w.setLevel1Modifier window)))
variable (hvaddr : vaddr / pagingBaseSize = target / pagingBaseSize)
variable (hafter : ∀ page, page < windowPage → after.pageEntry page =
  if target / pagingBaseSize ≤ page ∧
      page < target / pagingBaseSize + sourceMappingNPages header then 0
  else
    (afterTurns src (mappingFlags parties) (sourceMappingNPages header)
      (header.foreignVaddr / pagingBaseSize * pagingBaseSize) target
      (w.setLevel1Modifier window)).pageEntry page)

include hsource hw hpos hsrc htmp hne hroom hmapping hvaddr hafter

theorem right_mapped_iff : Right parties w header dispatch after ↔
      header.nBytes % pagingBaseSize = 0 ∧ dispatch.released = dispatch.obtained ∧
        Served src w (header.foreignVaddr / pagingBaseSize * pagingBaseSize)
          (sourceMappingNPages header) target := by
  have hpage : header.foreignVaddr / pagingBaseSize * pagingBaseSize / pagingBaseSize =
      header.foreignVaddr / pagingBaseSize := Nat.mul_div_cancel _ (by decide)
  have hsrc' : header.foreignVaddr / pagingBaseSize * pagingBaseSize / pagingBaseSize +
      sourceMappingNPages header ≤ windowPage := by
    rw [hpage]
    exact hsrc
  have haddr : ∀ i, header.foreignVaddr / pagingBaseSize * pagingBaseSize + i * pagingBaseSize =
      (header.foreignVaddr / pagingBaseSize + i) * pagingBaseSize :=
    fun i => (add_mul _ _ _).symm
  have hlookup : ∀ i, i < sourceMappingNPages header →
      (lookupIn src (w.setLevel1Modifier window)
        ((header.foreignVaddr / pagingBaseSize + i) * pagingBaseSize)).1 =
      (lookupIn src w ((header.foreignVaddr / pagingBaseSize + i) * pagingBaseSize)).1 := by
    intro i hi
    apply lookupIn_moved hw window
    rw [Nat.mul_div_cancel _ (by decide)]
    omega
  have hle := spannedPages_le header
  have hshared := @right_shared_iff src (w.setLevel1Modifier window)
    (header.foreignVaddr / pagingBaseSize * pagingBaseSize) (sourceMappingNPages header)
    (mappingFlags parties) (hw.moved window) target [] hsrc' htmp hne hroom
  rw [served_moved_iff hw window hsrc'] at hshared
  obtain ⟨-, hwritten, hkept⟩ := @afterTurns_pages src (w.setLevel1Modifier window)
    (mappingFlags parties) (header.foreignVaddr / pagingBaseSize * pagingBaseSize) target
    (hw.moved window) (sourceMappingNPages header) hsrc' htmp hroom
  generalize hduring : afterTurns src (mappingFlags parties) (sourceMappingNPages header)
    (header.foreignVaddr / pagingBaseSize * pagingBaseSize) target (w.setLevel1Modifier window) =
      during at *
  have hshows := @showsByte_iff header hpos vaddr
  constructor
  · rintro ⟨hmapped, hothers, -, hrest, hreturned⟩
    have hcount : spannedPages header = sourceMappingNPages header := by
      by_contra hne
      have hlast : target / pagingBaseSize + spannedPages header < windowPage := by omega
      have hnot : ¬ ShowsByte header vaddr (target / pagingBaseSize + spannedPages header) := by
        rw [hshows]
        omega
      have hzero : after.pageEntry (target / pagingBaseSize + spannedPages header) = 0 := by
        rw [hafter _ hlast, if_pos (by omega)]
      rw [hrest _ hlast] at hzero
      · rw [← hothers vaddr during hmapping _ hlast hnot, hwritten _ (by omega),
          Nat.or_eq_zero_iff] at hzero
        exact encodeFlags_mappingFlags_ne parties hzero.2
      · intro vaddr' during' hmapping'
        rw [hmapping] at hmapping'
        cases hmapping'
        exact hnot
    refine ⟨(spannedPages_eq_iff header).1 hcount, hreturned, hshared.1 ⟨fun _ => ⟨rfl, ?_⟩, ?_⟩⟩
    · intro i hi
      obtain ⟨frame, attribs, hfound, hentry⟩ := hmapped src hsource vaddr during hmapping i
        ((containsByte_iff header hpos i).2 (by omega))
      rw [hvaddr] at hentry
      refine ⟨frame, attribs, ?_, hentry⟩
      rw [haddr, hlookup i hi, hfound]
    · intro hzero
      exact absurd hzero hne
  · rintro ⟨hmultiple, hreturned, hserved⟩
    have hcount := (spannedPages_eq_iff header).2 hmultiple
    obtain ⟨-, hpages⟩ := (hshared.2 hserved).shared hne
    constructor
    · intro src' hsource' vaddr' during' hmapping' i hi
      rw [hsource] at hsource'
      rw [hmapping] at hmapping'
      cases hsource'
      cases hmapping'
      have hlt : i < sourceMappingNPages header := by
        rw [← hcount]
        exact (containsByte_iff header hpos i).1 hi
      obtain ⟨frame, attribs, hfound, hentry⟩ := hpages i hlt
      rw [haddr, hlookup i hlt] at hfound
      refine ⟨frame, attribs, hfound, ?_⟩
      rw [hvaddr]
      exact hentry
    · intro vaddr' during' hmapping' page hlt hnot
      rw [hmapping] at hmapping'
      cases hmapping'
      rw [hshows] at hnot
      rw [hkept page hlt fun i hi => by omega]
      exact pageEntry_setLevel1Modifier w hw.wellFormed window page hlt
    · intro vaddr' during' hmapping' page hshown
      rw [hmapping] at hmapping'
      cases hmapping'
      rw [hshows] at hshown
      rw [hafter page (by omega), if_pos (by omega)]
    · intro page hlt hnot
      have hnot' := hnot vaddr during hmapping
      rw [hshows] at hnot'
      rw [hafter page hlt, if_neg (by omega), hkept page hlt fun i hi => by omega]
      exact pageEntry_setLevel1Modifier w hw.wellFormed window page hlt
    · exact hreturned

end

theorem adjustVaddr_eq {vaddr : Nat} (hvaddr : vaddr < wordModulus) (paddr : Nat) :
    adjustVaddr vaddr paddr = vaddr / pagingBaseSize * pagingBaseSize + paddr % pagingBaseSize := by
  unfold adjustVaddr
  rw [and_pagingBaseMaskHigh vaddr hvaddr, and_pagingBaseMaskLow]

theorem adjustVaddr_page {vaddr : Nat} (hvaddr : vaddr < wordModulus) (paddr : Nat) :
    adjustVaddr vaddr paddr / pagingBaseSize = vaddr / pagingBaseSize := by
  rw [adjustVaddr_eq hvaddr]
  simp only [pagingBaseSize]
  omega

def mappingVaddr (header : Header) (buffer loose : Nat) : Nat :=
  if header.method = .mapAndRead then buffer else loose

/-- The placement address that `createSharedMappingTo` is given. -/
def placement (header : Header) (buffer : Nat) : Nat :=
  if header.method = .mapAndRead then buffer else 0

/-- The dispatch over a shared mapping, where the window shows the table `window`. -/
abbrev dispatchMapping (parties : Parties) (src : Source) (w : Walker) (header : Header)
    (buffer loose window : Nat) : Dispatch :=
  dispatchShared header (createSharedMappingTo src (w.setLevel1Modifier window)
    (header.foreignVaddr / pagingBaseSize * pagingBaseSize) (sourceMappingNPages header)
    (mappingFlags parties) (placement header buffer) loose)

theorem dispatchShared_nothing {buffer loose window : Nat} (hw : Sharing src w)
    (h : header.foreignVaddr < pagingBaseSize ∨ header.method = .mapAndCopy ∧ loose = 0) :
    Right parties w header (dispatchMapping parties src w header buffer loose window)
      (finished header buffer (dispatchMapping parties src w header buffer loose window)) := by
  have hnothing : (sourceMappingNPages header = 0 ∨
      header.foreignVaddr / pagingBaseSize * pagingBaseSize = 0) ∨
        targetVaddr (placement header buffer) loose = 0 := by
    rcases h with hforeign | ⟨hcopy, hzero⟩
    · rw [Nat.div_eq_of_lt hforeign, zero_mul]
      exact .inl (.inr rfl)
    · unfold targetVaddr placement
      rw [if_neg (by rw [hcopy]; decide : ¬ header.method = .mapAndRead),
        if_neg (not_not.2 rfl)]
      exact .inr hzero
  rw [dispatchMapping, createSharedMappingTo_nothing hnothing]
  exact right_unmapped fun page hpage =>
    pageEntry_setLevel1Modifier w hw.wellFormed window page hpage

/-- The dispatch returns before anything is mapped: nothing is to be mapped, the sender is
gone, the data is at `NULL`, there is no range to map it into, or that of the receiver is not
loose. -/
def MapsNothing (parties : Parties) (w : Walker) (header : Header) (buffer loose : Nat) : Prop :=
  header.method = .buffer ∨ parties.source = none ∨ header.foreignVaddr < pagingBaseSize ∨
    header.method = .mapAndCopy ∧ (parties.sameVaddrSpace = true ∨ loose = 0) ∨
    header.method = .mapAndRead ∧ ∃ i, i < sourceMappingNPages header ∧
      (lookup w (buffer + i * pagingBaseSize)).1.status ≠ .unmapped

section

variable {buffer loose window : Nat}
variable (hsource : parties.source = some src) (hw : Sharing src w) (hpos : 0 < header.nBytes)
variable (hbuffer : buffer ≠ 0) (hloose : loose % pagingBaseSize = 0)
variable (hsrc : header.foreignVaddr / pagingBaseSize + sourceMappingNPages header ≤ windowPage)
variable (htmp : mappingVaddr header buffer loose / pagingBaseSize + sourceMappingNPages header ≤
  windowPage)

include hsource hw hpos hbuffer hloose hsrc htmp

theorem dispatchShared_right_iff (hmethod : header.method ≠ .buffer)
    (hforeign : pagingBaseSize ≤ header.foreignVaddr) (hne : mappingVaddr header buffer loose ≠ 0) :
    Right parties w header (dispatchMapping parties src w header buffer loose window)
        (finished header buffer (dispatchMapping parties src w header buffer loose window)) ↔
      header.nBytes % pagingBaseSize = 0 ∧
        (header.method = .mapAndCopy → header.foreignVaddr % pagingBaseSize = 0) ∧
          Served src w (header.foreignVaddr / pagingBaseSize * pagingBaseSize)
            (sourceMappingNPages header) (mappingVaddr header buffer loose) := by
  have htarget : targetVaddr (placement header buffer) loose =
      mappingVaddr header buffer loose := by
    unfold targetVaddr placement mappingVaddr
    split_ifs with h₁ h₂ <;> first | rfl | contradiction
  have hsrc' : header.foreignVaddr / pagingBaseSize * pagingBaseSize / pagingBaseSize +
      sourceMappingNPages header ≤ windowPage := by
    rw [Nat.mul_div_cancel _ (by decide)]
    exact hsrc
  have hcount := sourceMappingNPages_pos header hpos
  have hsome : ¬ (sourceMappingNPages header = 0 ∨
      header.foreignVaddr / pagingBaseSize * pagingBaseSize = 0) := by
    simp only [pagingBaseSize] at hforeign ⊢
    omega
  have hvaddr : mappingVaddr header buffer loose < wordModulus := by
    simp only [windowPage, pagingNEntries, pagingBaseSize, wordModulus] at *
    omega
  rcases lt_or_ge w.pageTables.length (missing w
    (mappingVaddr header buffer loose / pagingBaseSize) (sourceMappingNPages header))
    with hnone | hroom
  · obtain ⟨hret, hreleased⟩ := @createSharedMappingTo_of_no_room src
      (w.setLevel1Modifier window) _ _ (mappingFlags parties) (placement header buffer) loose
      (hw.moved window) hsome (htarget ▸ hne) hsrc' (htarget ▸ htmp) (htarget ▸ hnone)
    refine iff_of_false (fun h => ?_) fun h => absurd h.2.2.room (Nat.not_le.2 hnone)
    have hreturned := h.returned
    rw [dispatchMapping, dispatchShared, if_pos hret] at hreturned
    exact hreleased hreturned
  rw [dispatchMapping, createSharedMappingTo_of_room (hw.moved window) hsome (htarget ▸ hne) hsrc'
    (htarget ▸ htmp) (htarget ▸ hroom), htarget]
  have hwf := (@afterTurns_pages src (w.setLevel1Modifier window) (mappingFlags parties)
    (header.foreignVaddr / pagingBaseSize * pagingBaseSize) (mappingVaddr header buffer loose)
    (hw.moved window) (sourceMappingNPages header) hsrc' htmp hroom).1
  have hadjusted := adjustVaddr_page hvaddr header.foreignVaddr
  unfold dispatchShared
  rw [if_neg hne]
  cases hkind : header.method with
  | buffer => exact absurd hkind hmethod
  | mapAndRead =>
    have hrange : mappingVaddr header buffer loose = buffer := if_pos hkind
    rw [if_pos rfl, right_mapped_iff hsource hw hpos hsrc htmp hne hroom rfl hadjusted]
    · have hobtained : obtainedRange (sourceMappingNPages header) (placement header buffer)
          loose = [] := by
        unfold obtainedRange placement
        rw [if_pos hkind, if_pos (.inl hbuffer)]
      refine and_congr_right fun _ => and_congr_left fun _ => ?_
      rw [hobtained]
      refine iff_of_true rfl ?_
      intro h
      cases h
    · intro page hpage
      unfold finished destroyDataHeader
      rw [if_pos rfl, if_pos hkind]
      have hcleared := unmap_pageEntry _ hwf _ _ hvaddr hcount
        (le_trans htmp (by decide)) page hpage
      rw [hrange] at hcleared ⊢
      exact hcleared
  | mapAndCopy =>
    have hrange : mappingVaddr header buffer loose = loose := if_neg (by rw [hkind]; decide)
    rw [if_neg (by decide), right_mapped_iff hsource hw hpos hsrc htmp hne hroom rfl hadjusted]
    · have hobtained : obtainedRange (sourceMappingNPages header) (placement header buffer)
          loose = [(loose, sourceMappingNPages header)] := by
        unfold obtainedRange placement
        rw [if_neg (by rw [hkind]; decide : ¬ header.method = .mapAndRead),
          if_neg fun h => h.elim (fun h => h rfl) (hrange ▸ hne)]
      refine and_congr_right fun _ => and_congr_left fun _ => ?_
      rw [hobtained, adjustVaddr_eq hvaddr, hrange]
      simp only [List.nil_append, List.cons.injEq, Prod.mk.injEq, and_true, true_imp_iff]
      simp only [pagingBaseSize] at hloose ⊢
      omega
    · intro page hpage
      unfold finished destroyDataHeader
      rw [if_pos rfl, if_neg (by rw [hkind]; decide)]
      rw [← hadjusted]
      have hlt : adjustVaddr (mappingVaddr header buffer loose) header.foreignVaddr <
          wordModulus := by
        simp only [windowPage, pagingNEntries, pagingBaseSize, wordModulus] at *
        omega
      refine unmap_pageEntry _ hwf _ _ hlt hcount ?_ page hpage
      rw [hadjusted]
      exact le_trans htmp (by decide)

abbrev Fits (parties : Parties) (w : Walker) (header : Header) (buffer loose : Nat)
    (src : Source) : Prop :=
  MapsNothing parties w header buffer loose ∨
    header.nBytes % pagingBaseSize = 0 ∧
      (header.method = .mapAndCopy → header.foreignVaddr % pagingBaseSize = 0) ∧
        Served src w (header.foreignVaddr / pagingBaseSize * pagingBaseSize)
          (sourceMappingNPages header) (mappingVaddr header buffer loose)

theorem dispatch_copy_iff (hkind : header.method = .mapAndCopy)
    (hmask : header.foreignVaddr &&& pagingBaseMaskHigh =
      header.foreignVaddr / pagingBaseSize * pagingBaseSize) :
    Right parties w header (dispatchDataHeader parties w header buffer loose)
        (finished header buffer (dispatchDataHeader parties w header buffer loose)) ↔
      Fits parties w header buffer loose src := by
  have hmethod : header.method ≠ .buffer := by
    rw [hkind]
    decide
  have hplacement : placement header buffer = 0 := if_neg (by rw [hkind]; decide)
  have hrange : mappingVaddr header buffer loose = loose := if_neg (by rw [hkind]; decide)
  have hdispatch : dispatchDataHeader parties w header buffer loose =
      if parties.sameVaddrSpace then ⟨.success, none, w, [], []⟩
      else dispatchMapping parties src w header buffer loose w.level1Modifier := by
    unfold dispatchDataHeader dispatchMapping
    rw [hsource, if_neg hmethod, hmask, hplacement, setLevel1Modifier_self]
    dsimp only
    rw [if_pos hkind]
  rw [hdispatch]
  split_ifs with hsame
  · refine iff_of_true (right_unmapped fun page _ => ?_)
      (.inl (.inr (.inr (.inr (.inl ⟨hkind, .inl hsame⟩)))))
    unfold finished destroyDataHeader
    rw [if_pos rfl, if_neg (by rw [hkind]; decide)]
  rcases lt_or_ge header.foreignVaddr pagingBaseSize with hforeign | hforeign
  · exact iff_of_true (dispatchShared_nothing hw (.inl hforeign))
      (.inl (.inr (.inr (.inl hforeign))))
  rcases eq_or_ne loose 0 with hzero | hne
  · exact iff_of_true (dispatchShared_nothing hw (.inr ⟨hkind, hzero⟩))
      (.inl (.inr (.inr (.inr (.inl ⟨hkind, .inr hzero⟩)))))
  have hrange_ne : mappingVaddr header buffer loose ≠ 0 := by
    rw [hrange]
    exact hne
  rw [dispatchShared_right_iff hsource hw hpos hbuffer hloose hsrc htmp hmethod hforeign hrange_ne]
  refine (or_iff_right ?_).symm
  rintro (h | h | h | ⟨-, h | h⟩ | ⟨h, -⟩)
  · exact hmethod h
  · rw [hsource] at h
    cases h
  · omega
  · exact hsame h
  · exact hne h
  · rw [hkind] at h
    cases h

theorem dispatch_read_iff (hkind : header.method = .mapAndRead)
    (hmask : header.foreignVaddr &&& pagingBaseMaskHigh =
      header.foreignVaddr / pagingBaseSize * pagingBaseSize) :
    Right parties w header (dispatchDataHeader parties w header buffer loose)
        (finished header buffer (dispatchDataHeader parties w header buffer loose)) ↔
      Fits parties w header buffer loose src := by
  have hmethod : header.method ≠ .buffer := by
    rw [hkind]
    decide
  have hplacement : placement header buffer = buffer := if_pos hkind
  have hrange : mappingVaddr header buffer loose = buffer := if_pos hkind
  obtain ⟨⟨window, hwindow⟩, hloose'⟩ := @vaddrRangeIsLoose_spec w hw.wellFormed
    (sourceMappingNPages header) buffer (hrange ▸ htmp)
  have hdispatch : dispatchDataHeader parties w header buffer loose =
      if (vaddrRangeIsLoose (sourceMappingNPages header) buffer w).1 = true then
        dispatchMapping parties src w header buffer loose window
      else ⟨.invalidOperation, none, w.setLevel1Modifier window, [], []⟩ := by
    unfold dispatchDataHeader dispatchMapping
    rw [hsource, if_neg hmethod, hmask, hplacement]
    dsimp only
    rw [if_neg (by rw [hkind]; decide), hwindow]
    cases (vaddrRangeIsLoose (sourceMappingNPages header) buffer w).1 <;> rfl
  rw [hdispatch]
  split_ifs with hyes
  · rcases lt_or_ge header.foreignVaddr pagingBaseSize with hforeign | hforeign
    · exact iff_of_true (dispatchShared_nothing hw (.inl hforeign))
        (.inl (.inr (.inr (.inl hforeign))))
    have hrange_ne : mappingVaddr header buffer loose ≠ 0 := by
      rw [hrange]
      exact hbuffer
    rw [dispatchShared_right_iff hsource hw hpos hbuffer hloose hsrc htmp hmethod hforeign
      hrange_ne]
    refine (or_iff_right ?_).symm
    rintro (h | h | h | ⟨h, -⟩ | ⟨-, i, hi, h⟩)
    · exact hmethod h
    · rw [hsource] at h
      cases h
    · omega
    · rw [hkind] at h
      cases h
    · exact h (hloose'.1 hyes i hi)
  · refine iff_of_true (right_unmapped fun page hpage => ?_) ?_
    · exact pageEntry_setLevel1Modifier w hw.wellFormed window page hpage
    · rw [hloose'] at hyes
      simp only [not_forall] at hyes
      obtain ⟨i, hi, h⟩ := hyes
      exact .inl (.inr (.inr (.inr (.inr ⟨hkind, i, hi, h⟩))))

end

/-- Exactly these dispatches do right: those that map nothing, and those with a size of whole
pages, for a copy also at a page's start, whose pages can all be shared. -/
theorem dispatchDataHeader_right_iff {buffer loose : Nat}
    (hw : ∀ src ∈ parties.source, Sharing src w) (hpos : 0 < header.nBytes)
    (hbuffer : buffer ≠ 0) (hloose : loose % pagingBaseSize = 0)
    (hsrc : header.foreignVaddr / pagingBaseSize + sourceMappingNPages header ≤ windowPage)
    (htmp : mappingVaddr header buffer loose / pagingBaseSize + sourceMappingNPages header ≤
      windowPage) : Right parties w header (dispatchDataHeader parties w header buffer loose)
        (finished header buffer (dispatchDataHeader parties w header buffer loose)) ↔
      MapsNothing parties w header buffer loose ∨ header.nBytes % pagingBaseSize = 0 ∧
          (header.method = .mapAndCopy → header.foreignVaddr % pagingBaseSize = 0) ∧
            ∀ src ∈ parties.source,
              Served src w (header.foreignVaddr / pagingBaseSize * pagingBaseSize)
                (sourceMappingNPages header) (mappingVaddr header buffer loose) := by
  have hmask : header.foreignVaddr &&& pagingBaseMaskHigh =
      header.foreignVaddr / pagingBaseSize * pagingBaseSize := by
    apply and_pagingBaseMaskHigh
    simp only [windowPage, pagingNEntries, pagingBaseSize, wordModulus] at *
    omega
  rcases eq_or_ne header.method .buffer with hbuffered | hmethod
  · have hdispatch : dispatchDataHeader parties w header buffer loose =
        ⟨.success, none, w, [], []⟩ := if_pos hbuffered
    rw [hdispatch]
    refine iff_of_true (right_unmapped fun page _ => ?_) (.inl (.inl hbuffered))
    unfold finished destroyDataHeader
    rw [if_pos rfl, if_neg (by rw [hbuffered]; decide)]
  cases hsource : parties.source with
  | none =>
    have hdispatch : dispatchDataHeader parties w header buffer loose =
        ⟨.notFound, none, w, [], []⟩ := by
      unfold dispatchDataHeader
      rw [hsource, if_neg hmethod]
    rw [hdispatch]
    exact iff_of_true (right_unmapped fun page _ => rfl) (.inl (.inr (.inl hsource)))
  | some src =>
    have hsharing := hw src hsource
    have hserved : (∀ src' ∈ some src, Served src' w
        (header.foreignVaddr / pagingBaseSize * pagingBaseSize) (sourceMappingNPages header)
          (mappingVaddr header buffer loose)) ↔ Served src w
        (header.foreignVaddr / pagingBaseSize * pagingBaseSize) (sourceMappingNPages header)
          (mappingVaddr header buffer loose) := by
      constructor
      · intro h
        exact h src rfl
      · rintro h src' ⟨⟩
        exact h
    rw [hserved]
    have hkind : header.method = .mapAndCopy ∨ header.method = .mapAndRead := by
      cases h : header.method with
      | buffer => exact absurd h hmethod
      | mapAndCopy => exact .inl rfl
      | mapAndRead => exact .inr rfl
    rcases hkind with hcopy | hread
    · exact dispatch_copy_iff hsource hsharing hpos hbuffer hloose hsrc htmp hcopy hmask
    · exact dispatch_read_iff hsource hsharing hpos hbuffer hloose hsrc htmp hread hmask

def neighbours : Parties :=
  ⟨some .own, true, false⟩

def readHeader (nBytes : Nat) : Header :=
  ⟨.mapAndRead, 0x400000, nBytes⟩

theorem neighbours_sharing (count : Nat) :
    ∀ src ∈ neighbours.source, Sharing src (pagesWalker count) := by
  rintro src ⟨⟩
  exact Sharing.ofOwn (pagesWalker_wellFormed count)

theorem dispatchDataHeader_right_iff_wholePages :
    Right neighbours (pagesWalker 2) (readHeader 8192)
      (dispatchDataHeader neighbours (pagesWalker 2) (readHeader 8192) 0x402000 0)
      (finished (readHeader 8192) 0x402000
        (dispatchDataHeader neighbours (pagesWalker 2) (readHeader 8192) 0x402000 0)) := by
  refine (dispatchDataHeader_right_iff (neighbours_sharing 2) (by decide) (by decide) (by decide)
    (by decide) (by decide)).2 (.inr ⟨by decide, by decide, ?_⟩)
  rintro src ⟨⟩
  exact ⟨by decide, by decide, undisturbed_of_le (by decide) (by decide)⟩

theorem dispatchDataHeader_oneByte_not_right :
    (∀ src ∈ neighbours.source, Sharing src (pagesWalker 1)) ∧
      ¬ Right neighbours (pagesWalker 1) (readHeader 1)
        (dispatchDataHeader neighbours (pagesWalker 1) (readHeader 1) 0x402000 0)
        (finished (readHeader 1) 0x402000
          (dispatchDataHeader neighbours (pagesWalker 1) (readHeader 1) 0x402000 0)) := by
  refine ⟨neighbours_sharing 1, fun h => ?_⟩
  have hsecond : (dispatchDataHeader neighbours (pagesWalker 1) (readHeader 1) 0x402000
      0).mapping.map (fun mapping => (mapping.1, mapping.2.pageEntry 0x403)) =
        some (0x402000, encodeFlags pageAttribPresent) := by
    decide +kernel
  obtain ⟨⟨vaddr, during⟩, hmapping, hpair⟩ := Option.map_eq_some_iff.1 hsecond
  obtain ⟨rfl, hentry⟩ := Prod.mk.inj hpair
  have hnot : ¬ ShowsByte (readHeader 1) 0x402000 0x403 := by
    rw [showsByte_iff (by decide)]
    decide
  have hzero := h.others _ during hmapping 0x403 (by decide) hnot
  rw [hentry] at hzero
  exact absurd hzero (by decide)

end

end Zambesii.DataHeader
