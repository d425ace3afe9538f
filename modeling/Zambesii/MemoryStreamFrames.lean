import Zambesii.MemoryStream

/-!
The frames behind the pages of a `MemoryStream`: which frame a present page maps, and what
freeing into the alloc cache and taking out of it does to the present bit.
-/

namespace Zambesii.MemoryStreamFrames

open Function List Multiset
open KernelTypes
open LinkedCells (Ptr)
open MemoryStream PageAttributes Runs
open SetAttributes (Op applyOp)
open VaddrSpaceStream (Holds singles stackCachePush)
open WalkerPageRanger (pageStatus pagingNEntries mapped readEntry)

def present (pages : PageMap) (page : Nat) : Bool :=
  (pages.entries page).testBit 0

def frameOf (pages : PageMap) (page : Nat) : Nat :=
  pages.entries page / pagingBaseSize

theorem pageStatus_ne_backed (paddr : Nat) : pageStatus paddr ≠ .backed := by
  unfold pageStatus
  split <;> simp

theorem readEntry_backed_iff (entry : Nat) :
    (readEntry entry).status = .backed ↔ entry.testBit 0 = true := by
  unfold readEntry
  rcases eq_or_ne entry 0 with rfl | hne
  · simp
  rw [if_neg hne]
  dsimp only
  rw [flagTest_decodeFlags_present, pagingPresent, flagTest_shiftLeft, Nat.testBit_and]
  cases entry.testBit 0 with
  | true => simp
  | false => simp [pageStatus_ne_backed]

section

variable (pages : PageMap) (page other : Nat)

theorem snd_unmap : (pages.unmap page).2 =
    if pages.tables (page / pagingNEntries) = true then
      { pages with
        entries := update pages.entries page 0
        fakemapped := update pages.fakemapped page false }
    else pages := by
  unfold PageMap.unmap
  split_ifs <;> rfl

theorem tables_unmap : (pages.unmap page).2.tables = pages.tables := by
  rw [snd_unmap]
  split <;> rfl

theorem entries_unmap : (pages.unmap page).2.entries other =
    if other = page ∧ pages.tables (other / pagingNEntries) = true then 0
    else pages.entries other := by
  rw [snd_unmap]
  rcases eq_or_ne other page with rfl | hne
  · cases htable : pages.tables (other / pagingNEntries) with
    | true => simp
    | false => simp
  · split <;> simp [hne]

theorem fakemapped_unmap : (pages.unmap page).2.fakemapped other =
    if other = page ∧ pages.tables (other / pagingNEntries) = true then false
    else pages.fakemapped other := by
  rw [snd_unmap]
  rcases eq_or_ne other page with rfl | hne
  · cases htable : pages.tables (other / pagingNEntries) with
    | true => simp
    | false => simp
  · split <;> simp [hne]

theorem fst_unmap : (pages.unmap page).1 =
    if pages.tables (page / pagingNEntries) = true ∧ present pages page = true then
      some (frameOf pages page)
    else none := by
  unfold PageMap.unmap
  split
  · rename_i htable
    simp only [readEntry_backed_iff, htable, true_and]
    rfl
  · rename_i htable
    rw [if_neg fun h => htable h.1]

def released (held : Nat → Bool) (nRelease : Nat) : Option Nat → Nat → Bool
  | some frame => releaseFrames held frame nRelease
  | none => held

theorem released_unmap (held : Nat → Bool) (nRelease frame : Nat) :
    released held nRelease (pages.unmap page).1 frame = true ↔
      held frame = true ∧ (pages.tables (page / pagingNEntries) = true → present pages page = true →
          ¬ (frameOf pages page ≤ frame ∧ frame < frameOf pages page + nRelease)) := by
  rw [fst_unmap]
  split
  · rename_i hbacked
    simp only [released, releaseFrames, Bool.and_eq_true, Bool.not_eq_true', decide_eq_false_iff_not,
      hbacked.1, hbacked.2, true_implies]
  rename_i hbacked
  constructor
  · intro hheld
    exact ⟨hheld, fun htable hpresent => absurd ⟨htable, hpresent⟩ hbacked⟩
  · rintro ⟨hheld, -⟩
    exact hheld

theorem unmapPages_succ (nRelease count : Nat) (held : Nat → Bool) :
    unmapPages nRelease (count + 1) page (pages, held) = unmapPages nRelease count (page + 1)
        ((pages.unmap page).2, released held nRelease (pages.unmap page).1) := by
  rcases hunmap : pages.unmap page with ⟨_ | frame, next⟩
  · simp only [unmapPages, hunmap, released]
  · simp only [unmapPages, hunmap, released]

end

structure Unmaps (nRelease count page : Nat) (pages : PageMap) (held : Nat → Bool)
    (next : PageMap × (Nat → Bool)) : Prop where
  tables : next.1.tables = pages.tables
  entries : ∀ other, next.1.entries other =
    if (page ≤ other ∧ other < page + count) ∧ pages.tables (other / pagingNEntries) = true then 0
    else pages.entries other
  fakemapped : ∀ other, next.1.fakemapped other =
    if (page ≤ other ∧ other < page + count) ∧ pages.tables (other / pagingNEntries) = true
      then false
    else pages.fakemapped other
  held : ∀ frame, next.2 frame = true ↔ held frame = true ∧
    ∀ other, page ≤ other → other < page + count → pages.tables (other / pagingNEntries) = true →
      present pages other = true →
        ¬ (frameOf pages other ≤ frame ∧ frame < frameOf pages other + nRelease)

theorem unmapPages_spec (nRelease count page : Nat) (pages : PageMap) (held : Nat → Bool) :
    Unmaps nRelease count page pages held (unmapPages nRelease count page (pages, held)) := by
  induction count generalizing page pages held with
  | zero =>
    have hempty : ∀ other, ¬ (page ≤ other ∧ other < page + 0) := by omega
    refine ⟨rfl, ?_, ?_, ?_⟩
    · intro other
      rw [if_neg fun h => hempty other h.1]
      rfl
    · intro other
      rw [if_neg fun h => hempty other h.1]
      rfl
    · intro frame
      constructor
      · intro hheld
        exact ⟨hheld, fun other hle hlt => absurd ⟨hle, hlt⟩ (hempty other)⟩
      · rintro ⟨hheld, -⟩
        exact hheld
  | succ count ih =>
    rw [unmapPages_succ]
    have hrest := ih (page + 1) (pages.unmap page).2
      (released held nRelease (pages.unmap page).1)
    have hrange : ∀ other, (page ≤ other ∧ other < page + (count + 1)) ↔
        other = page ∨ (page + 1 ≤ other ∧ other < page + 1 + count) := by omega
    have hsame : ∀ other, page + 1 ≤ other →
        (pages.unmap page).2.entries other = pages.entries other := by
      intro other hother
      rw [entries_unmap, if_neg fun h => by omega]
    refine ⟨hrest.tables.trans (tables_unmap pages page), ?_, ?_, ?_⟩
    · intro other
      rw [hrest.entries, tables_unmap, entries_unmap]
      simp only [hrange]
      split_ifs <;> tauto
    · intro other
      rw [hrest.fakemapped, tables_unmap, fakemapped_unmap]
      simp only [hrange]
      split_ifs <;> tauto
    · intro frame
      rw [hrest.held, released_unmap, and_assoc, tables_unmap]
      refine and_congr_right fun _ => ?_
      constructor
      · rintro ⟨hfirst, hothers⟩ other hle hlt htable hpresent
        rcases (hrange other).mp ⟨hle, hlt⟩ with rfl | ⟨hle', hlt'⟩
        · exact hfirst htable hpresent
        · have hkept := hothers other hle' hlt' htable
          simp only [present, frameOf, hsame other hle'] at hkept
          exact hkept hpresent
      · intro hall
        refine ⟨hall page (le_refl _) (by omega), ?_⟩
        intro other hle hlt htable hpresent
        simp only [present, frameOf, hsame other hle] at hpresent ⊢
        exact hall other (by omega) (by omega) htable hpresent

def Used (pages : PageMap) (cached : Nat → Prop) (page : Nat) : Prop :=
  present pages page = true ∨ cached page

/-- Every page in use has a frame of its own that was handed out and not released since. Only
owned pages are present. -/
structure Backs (pages : PageMap) (held : Nat → Bool) (owned cached : Nat → Prop) : Prop where
  owned_of_present : ∀ page, present pages page = true → owned page
  tables_of_used : ∀ page, Used pages cached page → pages.tables (page / pagingNEntries) = true
  held_of_used : ∀ page, Used pages cached page → held (frameOf pages page) = true
  frames_inj : ∀ page other, Used pages cached page → Used pages cached other →
    frameOf pages page = frameOf pages other → page = other
  frame_lt : ∀ page, Used pages cached page → (frameOf pages page + 1) * pagingBaseSize ≤ wordModulus
  fakemapped_of_used : ∀ page, Used pages cached page → pages.fakemapped page = false

section

variable {pages : PageMap} {held : Nat → Bool} {owned cached : Nat → Prop}

theorem withTables_of_tables (tables : Nat → Bool) (first count table : Nat)
    (h : tables table = true) : PageMap.withTables tables first count table = true := by
  simp [PageMap.withTables, h]

variable {first count : Nat}

theorem withTables_of_mem (tables : Nat → Bool) {page : Nat} (hle : first ≤ page)
    (hlt : page < first + count) :
    PageMap.withTables tables first count (page / pagingNEntries) = true := by
  have hfirst : first / pagingNEntries ≤ page / pagingNEntries := Nat.div_le_div_right hle
  have hlast : page / pagingNEntries ≤ (first + count - 1) / pagingNEntries :=
    Nat.div_le_div_right (by omega)
  have hpos : 0 < count := by omega
  simp [PageMap.withTables, hfirst, hlast, hpos]

theorem entry_div {frame archFlags : Nat} (hflags : archFlags < pagingBaseSize) :
    (frame * pagingBaseSize ||| archFlags) / pagingBaseSize = frame := by
  rw [WalkerPageRanger.or_div_pagingBaseSize _ _ hflags]
  exact Nat.mul_div_cancel _ (by decide)

theorem entries_mapInc {frame archFlags page : Nat}
    (hbound : (frame + count) * pagingBaseSize ≤ wordModulus) (hle : first ≤ page)
    (hlt : page < first + count) :
    (pages.mapInc first count (frame * pagingBaseSize) archFlags).entries page =
      (frame + (page - first)) * pagingBaseSize ||| archFlags := by
  have hword : frame * pagingBaseSize + (page - first) * pagingBaseSize < wordModulus := by
    simp only [pagingBaseSize, wordModulus] at hbound ⊢
    omega
  show mapped _ _ _ _ _ _ = _
  rw [mapped, if_pos ⟨hle, hlt⟩, Nat.mod_eq_of_lt hword, add_mul]

theorem entries_mapInc_of_not_mem {paddr archFlags page : Nat}
    (h : ¬ (first ≤ page ∧ page < first + count)) :
    (pages.mapInc first count paddr archFlags).entries page = pages.entries page :=
  if_neg h

theorem used_mapInc {paddr archFlags page : Nat}
    (h : Used (pages.mapInc first count paddr archFlags) cached page) :
    Used pages cached page ∨ (first ≤ page ∧ page < first + count) := by
  rcases em (first ≤ page ∧ page < first + count) with hmem | hmem
  · exact .inr hmem
  · unfold Used present at h
    rw [entries_mapInc_of_not_mem hmem] at h
    exact .inl h

theorem getFrames_of_held {frame nFrames other : Nat} (h : held other = true) :
    getFrames held frame nFrames other = true := by
  simp [getFrames, h]

theorem getFrames_of_mem {frame nFrames other : Nat} (hle : frame ≤ other)
    (hlt : other < frame + nFrames) : getFrames held frame nFrames other = true := by
  simp [getFrames, hle, hlt]

theorem Backs.mapInc (h : Backs pages held owned cached) {nMapped nFrames frame : Nat}
    {archFlags : Nat} (hflags : archFlags < pagingBaseSize) (hmapped : nMapped ≤ nFrames)
    (hbound : (frame + nFrames) * pagingBaseSize ≤ wordModulus)
    (howned : ∀ page, first ≤ page → page < first + nMapped → owned page ∧ ¬ Used pages cached page)
    (hfresh : ∀ i, i < nFrames → held (frame + i) = false) :
    Backs (pages.mapInc first nMapped (frame * pagingBaseSize) archFlags)
      (getFrames held frame nFrames) owned cached := by
  have hbound' : (frame + nMapped) * pagingBaseSize ≤ wordModulus :=
    (Nat.mul_le_mul_right _ (Nat.add_le_add_left hmapped _)).trans hbound
  have hnew : ∀ page, first ≤ page → page < first + nMapped →
      frameOf (pages.mapInc first nMapped (frame * pagingBaseSize) archFlags) page =
        frame + (page - first) := by
    intro page hle hlt
    unfold frameOf
    rw [entries_mapInc hbound' hle hlt, entry_div hflags]
  have hold : ∀ page, ¬ (first ≤ page ∧ page < first + nMapped) →
      frameOf (pages.mapInc first nMapped (frame * pagingBaseSize) archFlags) page =
        frameOf pages page := by
    intro page hpage
    unfold frameOf
    rw [entries_mapInc_of_not_mem hpage]
  -- A page in use has an old frame or one of the new ones, and those were not held.
  have hcases : ∀ page,
      Used (pages.mapInc first nMapped (frame * pagingBaseSize) archFlags) cached page →
        (first ≤ page ∧ page < first + nMapped) ∨
          (¬ (first ≤ page ∧ page < first + nMapped) ∧ Used pages cached page) := by
    intro page hused
    rcases em (first ≤ page ∧ page < first + nMapped) with hmem | hmem
    · exact .inl hmem
    · exact .inr ⟨hmem, (used_mapInc hused).resolve_right hmem⟩
  have hne : ∀ page other, first ≤ page → page < first + nMapped → Used pages cached other →
      frame + (page - first) ≠ frameOf pages other := by
    intro page other hle hlt hused heq
    have hfree := hfresh (page - first) (by omega)
    rw [heq, h.held_of_used other hused] at hfree
    contradiction
  constructor
  · intro page hpage
    rcases em (first ≤ page ∧ page < first + nMapped) with hmem | hmem
    · exact (howned page hmem.1 hmem.2).1
    · unfold present at hpage
      rw [entries_mapInc_of_not_mem hmem] at hpage
      exact h.owned_of_present page hpage
  · intro page hused
    rcases hcases page hused with hmem | ⟨-, hused'⟩
    · exact withTables_of_mem _ hmem.1 hmem.2
    · exact withTables_of_tables _ _ _ _ (h.tables_of_used page hused')
  · intro page hused
    rcases hcases page hused with hmem | ⟨hmem, hused'⟩
    · rw [hnew page hmem.1 hmem.2]
      exact getFrames_of_mem (by omega) (by omega)
    · rw [hold page hmem]
      exact getFrames_of_held (h.held_of_used page hused')
  · intro page other hused hused' heq
    rcases hcases page hused with hmem | ⟨hmem, hpage⟩
    · rw [hnew page hmem.1 hmem.2] at heq
      rcases hcases other hused' with hmem' | ⟨hmem', hother⟩
      · rw [hnew other hmem'.1 hmem'.2] at heq
        omega
      · rw [hold other hmem'] at heq
        exact absurd heq (hne page other hmem.1 hmem.2 hother)
    · rw [hold page hmem] at heq
      rcases hcases other hused' with hmem' | ⟨hmem', hother⟩
      · rw [hnew other hmem'.1 hmem'.2] at heq
        exact absurd heq.symm (hne other page hmem'.1 hmem'.2 hpage)
      · rw [hold other hmem'] at heq
        exact h.frames_inj page other hpage hother heq
  · intro page hused
    rcases hcases page hused with hmem | ⟨hmem, hused'⟩
    · rw [hnew page hmem.1 hmem.2]
      exact (Nat.mul_le_mul_right _ (by omega)).trans hbound'
    · rw [hold page hmem]
      exact h.frame_lt page hused'
  · intro page hused
    show (pages.fakemapped page && !decide (first ≤ page ∧ page < first + nMapped)) = false
    rcases hcases page hused with hmem | ⟨-, hused'⟩
    · simp [hmem]
    · simp [h.fakemapped_of_used page hused']

theorem testBit_fakemapFlags (process : Process) :
    (fakemappedDynamic ||| fakemapFlags process).testBit 0 = false := by
  unfold fakemapFlags
  cases process.fKernel <;> decide

theorem used_mapNoInc {process : Process} {page : Nat}
    (h : Used (pages.mapNoInc first count fakemappedDynamic (fakemapFlags process)) cached page) :
    Used pages cached page := by
  rcases h with hpresent | hcached
  · unfold present PageMap.mapNoInc at hpresent
    dsimp only at hpresent
    split at hpresent
    · rw [testBit_fakemapFlags] at hpresent
      contradiction
    · exact .inl hpresent
  · exact .inr hcached

variable (h : Backs pages held owned cached)

include h

theorem Backs.mapNoInc {process : Process}
    (hfree : ∀ page, first ≤ page → page < first + count → ¬ Used pages cached page) :
    Backs (pages.mapNoInc first count fakemappedDynamic (fakemapFlags process)) held owned
      cached := by
  have hsame : ∀ page, Used pages cached page →
      (pages.mapNoInc first count fakemappedDynamic (fakemapFlags process)).entries page =
        pages.entries page :=
    fun page hused => if_neg fun hmem => hfree page hmem.1 hmem.2 hused
  have hframe : ∀ page, Used pages cached page →
      frameOf (pages.mapNoInc first count fakemappedDynamic (fakemapFlags process)) page =
        frameOf pages page := by
    intro page hused
    rw [frameOf, hsame page hused]
    rfl
  constructor
  · intro page hpresent
    have hused : Used (pages.mapNoInc first count fakemappedDynamic (fakemapFlags process))
        (fun _ => False) page := .inl hpresent
    exact h.owned_of_present page ((used_mapNoInc hused).resolve_right id)
  · intro page hused
    exact withTables_of_tables _ _ _ _ (h.tables_of_used page (used_mapNoInc hused))
  · intro page hused
    rw [hframe page (used_mapNoInc hused)]
    exact h.held_of_used page (used_mapNoInc hused)
  · intro page other hused hused' heq
    rw [hframe page (used_mapNoInc hused), hframe other (used_mapNoInc hused')] at heq
    exact h.frames_inj page other (used_mapNoInc hused) (used_mapNoInc hused') heq
  · intro page hused
    rw [hframe page (used_mapNoInc hused)]
    exact h.frame_lt page (used_mapNoInc hused)
  · intro page hused
    have hused' := used_mapNoInc hused
    have hmem : ¬ (first ≤ page ∧ page < first + count) :=
      fun hmem => hfree page hmem.1 hmem.2 hused'
    show (pages.fakemapped page || decide (first ≤ page ∧ page < first + count)) = false
    simp [h.fakemapped_of_used page hused', hmem]

theorem Backs.unmaps {nRelease : Nat}
    {next : PageMap × (Nat → Bool)} (hnext : Unmaps nRelease count first pages held next)
    (hcached : ∀ page, first ≤ page → page < first + count → ¬ cached page)
    (hothers : ∀ page other, first ≤ page → page < first + count → present pages page = true →
      Used pages cached other → ¬ (first ≤ other ∧ other < first + count) →
        ¬ (frameOf pages page ≤ frameOf pages other ∧
          frameOf pages other < frameOf pages page + nRelease)) :
    Backs next.1 next.2 (fun page => owned page ∧ ¬ (first ≤ page ∧ page < first + count))
      cached := by
  -- What is still in use is outside of the range, and has its entry.
  have hout : ∀ page, Used next.1 cached page →
      ¬ (first ≤ page ∧ page < first + count) ∧ Used pages cached page := by
    intro page hused
    have hmem : ¬ (first ≤ page ∧ page < first + count) := by
      intro hmem
      rcases hused with hpresent | hcached'
      · unfold present at hpresent
        rw [hnext.entries] at hpresent
        split at hpresent
        · contradiction
        · rename_i htable
          exact htable ⟨hmem, h.tables_of_used page (.inl hpresent)⟩
      · exact hcached page hmem.1 hmem.2 hcached'
    refine ⟨hmem, ?_⟩
    unfold Used present at hused
    rw [hnext.entries, if_neg fun h => hmem h.1] at hused
    exact hused
  have hframe : ∀ page, ¬ (first ≤ page ∧ page < first + count) →
      frameOf next.1 page = frameOf pages page := by
    intro page hmem
    rw [frameOf, hnext.entries, if_neg fun h => hmem h.1]
    rfl
  constructor
  · intro page hpresent
    obtain ⟨hmem, -⟩ := hout page (.inl hpresent)
    unfold present at hpresent
    rw [hnext.entries, if_neg fun h => hmem h.1] at hpresent
    exact ⟨h.owned_of_present page hpresent, hmem⟩
  · intro page hused
    rw [hnext.tables]
    exact h.tables_of_used page (hout page hused).2
  · intro page hused
    obtain ⟨hmem, hused'⟩ := hout page hused
    rw [hframe page hmem, hnext.held]
    refine ⟨h.held_of_used page hused', ?_⟩
    intro other hle hlt _ hpresent
    exact hothers other page hle hlt hpresent hused' hmem
  · intro page other hused hused' heq
    obtain ⟨hmem, hpage⟩ := hout page hused
    obtain ⟨hmem', hother⟩ := hout other hused'
    rw [hframe page hmem, hframe other hmem'] at heq
    exact h.frames_inj page other hpage hother heq
  · intro page hused
    obtain ⟨hmem, hused'⟩ := hout page hused
    rw [hframe page hmem]
    exact h.frame_lt page hused'
  · intro page hused
    obtain ⟨hmem, hused'⟩ := hout page hused
    rw [hnext.fakemapped, if_neg fun h => hmem h.1]
    exact h.fakemapped_of_used page hused'

theorem Backs.congr {next : PageMap} {owned' cached' : Nat → Prop}
    (htables : next.tables = pages.tables) (hfakemapped : next.fakemapped = pages.fakemapped)
    (hframe : ∀ page, frameOf next page = frameOf pages page)
    (hused : ∀ page, Used next cached' page → Used pages cached page)
    (howned : ∀ page, present next page = true → owned' page) : Backs next held owned' cached' := by
  refine ⟨howned, ?_, ?_, ?_, ?_, ?_⟩
  · intro page hpage
    rw [htables]
    exact h.tables_of_used page (hused page hpage)
  · intro page hpage
    rw [hframe]
    exact h.held_of_used page (hused page hpage)
  · intro page other hpage hother heq
    rw [hframe, hframe] at heq
    exact h.frames_inj page other (hused page hpage) (hused other hother) heq
  · intro page hpage
    rw [hframe]
    exact h.frame_lt page (hused page hpage)
  · intro page hpage
    rw [hfakemapped]
    exact h.fakemapped_of_used page (hused page hpage)

theorem Backs.setAttributes {page : Nat} {op : Op}
    (hpage : Used pages cached page) {owned' cached' : Nat → Prop}
    (hused : ∀ other, other ≠ page → cached' other → cached other)
    (hpresent : SetAttributes.opBit op 0 (pages.entries page) 0 = true → owned' page)
    (howned : ∀ other, other ≠ page → owned other → owned' other) :
    Backs (pages.setAttributes page op) held owned' cached' := by
  have htable := h.tables_of_used page hpage
  have hlt : pages.entries page < wordModulus := by
    have hframe := h.frame_lt page hpage
    simp only [frameOf, pagingBaseSize, wordModulus] at hframe ⊢
    omega
  obtain ⟨hdiv, hbits⟩ := SetAttributes.applyOp_changed op 0 _ hlt (by decide)
  have hset : pages.setAttributes page op =
      { pages with
        entries := update pages.entries page (applyOp op 0 (pages.entries page)) } :=
    if_pos htable
  have hother : ∀ other, other ≠ page →
      (pages.setAttributes page op).entries other = pages.entries other := by
    intro other hne
    rw [hset]
    exact update_of_ne hne _ _
  have hself : (pages.setAttributes page op).entries page = applyOp op 0 (pages.entries page) := by
    rw [hset]
    exact update_self _ _ _
  refine h.congr (by rw [hset]) (by rw [hset]) ?_ ?_ ?_
  · intro other
    rcases eq_or_ne other page with rfl | hne
    · rw [frameOf, hself, hdiv]
      rfl
    · rw [frameOf, hother other hne]
      rfl
  · intro other hother'
    rcases eq_or_ne other page with rfl | hne
    · exact hpage
    · unfold Used present at hother'
      rw [hother other hne] at hother'
      exact hother'.imp_right (hused other hne)
  · intro other hother'
    unfold present at hother'
    rcases eq_or_ne other page with rfl | hne
    · rw [hself, hbits 0 (by decide)] at hother'
      exact hpresent hother'
    · rw [hother other hne] at hother'
      exact howned other hne (h.owned_of_present other hother')

omit h

/-- The frames that are returned are not held, exist, and no frame is returned twice. -/
def FreshFrames (held : Nat → Bool) (supplies : List Supply) : Prop :=
  (∀ supply ∈ supplies, (supply.frame + supply.nFrames) * pagingBaseSize ≤ wordModulus ∧
    ∀ i < supply.nFrames, held (supply.frame + i) = false) ∧
  supplies.Pairwise fun supply other =>
    supply.frame + supply.nFrames ≤ other.frame ∨ other.frame + other.nFrames ≤ supply.frame

theorem FreshFrames.tail {supply : Supply} {supplies : List Supply}
    (h : FreshFrames held (supply :: supplies)) : FreshFrames held supplies :=
  ⟨fun other hother => h.1 other (mem_cons_of_mem _ hother), h.2.tail⟩

theorem FreshFrames.getFrames {supply : Supply} {supplies : List Supply}
    (h : FreshFrames held (supply :: supplies)) {nFrames : Nat} (hle : nFrames ≤ supply.nFrames) :
    FreshFrames (getFrames held supply.frame nFrames) supplies := by
  refine ⟨?_, h.2.tail⟩
  intro other hother
  obtain ⟨hbound, hfresh⟩ := h.1 other (mem_cons_of_mem _ hother)
  refine ⟨hbound, ?_⟩
  intro i hi
  have hseparate := (pairwise_cons.mp h.2).1 other hother
  have hmem : ¬ (supply.frame ≤ other.frame + i ∧ other.frame + i < supply.frame + nFrames) := by
    omega
  simp [MemoryStream.getFrames, hfresh i hi, hmem]

structure Commits (owned cached : Nat → Prop) (firstPage commit : Nat)
    (progress last : Progress) : Prop where
  backs : Backs last.pages last.held owned cached
  le_totalFrames : progress.totalFrames ≤ last.totalFrames
  totalFrames_le : last.totalFrames ≤ commit
  used : ∀ page, Used last.pages cached page → Used progress.pages cached page ∨
    firstPage + progress.totalFrames ≤ page ∧ page < firstPage + last.totalFrames

def FreePages (owned cached : Nat → Prop) (firstPage commit : Nat) (progress : Progress) : Prop :=
  ∀ page, firstPage + progress.totalFrames ≤ page → page < firstPage + commit →
    owned page ∧ ¬ Used progress.pages cached page

theorem Commits.freePages {firstPage commit : Nat} {progress last : Progress}
    (h : Commits owned cached firstPage commit progress last)
    (hfree : FreePages owned cached firstPage commit progress) :
    FreePages owned cached firstPage commit last := by
  intro page hle hlt
  have hle' := h.le_totalFrames
  obtain ⟨howned, hunused⟩ := hfree page (by omega) hlt
  refine ⟨howned, ?_⟩
  intro hused
  rcases h.used page hused with hused' | hmem
  · exact hunused hused'
  · omega

theorem Commits.trans {firstPage commit : Nat} {progress next last : Progress}
    (h : Commits owned cached firstPage commit progress next)
    (h' : Commits owned cached firstPage commit next last) :
    Commits owned cached firstPage commit progress last := by
  have hle := h.le_totalFrames
  have hle' := h'.le_totalFrames
  refine ⟨h'.backs, hle.trans hle', h'.totalFrames_le, ?_⟩
  intro page hpage
  rcases h'.used page hpage with hused | hmem
  · rcases h.used page hused with hused' | hmem
    · exact .inl hused'
    · exact .inr (by omega)
  · exact .inr (by omega)

theorem Backs.commit {archFlags firstPage commit : Nat} {progress : Progress}
    {supply : Supply} {supplies : List Supply}
    (h : Backs progress.pages progress.held owned cached) (nFrames nMapped : Nat)
    (hflags : archFlags < pagingBaseSize)
    (hfresh : FreshFrames progress.held (supply :: supplies))
    (hfree : FreePages owned cached firstPage commit progress) (hnFrames : nFrames ≤ supply.nFrames)
    (hcommit : progress.totalFrames + nFrames ≤ commit) (hnMapped : nMapped ≤ nFrames) :
    Commits owned cached firstPage commit progress
      { totalFrames := progress.totalFrames + nFrames
        pages := progress.pages.mapInc (firstPage + progress.totalFrames) nMapped
          (supply.frame * pagingBaseSize) archFlags
        held := getFrames progress.held supply.frame nFrames } := by
  obtain ⟨hbound, hunheld⟩ := hfresh.1 supply mem_cons_self
  refine ⟨?_, Nat.le_add_right _ _, hcommit, ?_⟩
  · refine h.mapInc hflags hnMapped ?_ ?_ ?_
    · exact (Nat.mul_le_mul_right _ (Nat.add_le_add_left hnFrames _)).trans hbound
    · intro page hle hlt
      exact hfree page hle (by omega)
    · intro i hi
      exact hunheld i (by omega)
  · intro page hpage
    refine (used_mapInc hpage).imp_right ?_
    rintro ⟨hle, hlt⟩
    refine ⟨hle, ?_⟩
    dsimp only
    omega

theorem Backs.commitFrames {archFlags firstPage commit : Nat} (hflags : archFlags < pagingBaseSize)
    (supplies : List Supply) (nTries : Nat) (progress : Progress)
    (h : Backs progress.pages progress.held owned cached)
    (hfresh : FreshFrames progress.held supplies) (htotal : progress.totalFrames ≤ commit)
    (hfree : FreePages owned cached firstPage commit progress) :
    Commits owned cached firstPage commit progress
      (commitFrames archFlags firstPage commit supplies nTries progress).2 := by
  induction supplies generalizing nTries progress with
  | nil => exact ⟨h, le_refl _, htotal, fun page => .inl⟩
  | cons supply supplies ih =>
    rw [MemoryStream.commitFrames]
    dsimp only
    split
    · exact ⟨h, le_refl _, htotal, fun page => .inl⟩
    split
    · have hcommits := h.commit (min supply.nFrames (commit - progress.totalFrames)) _
        hflags hfresh hfree (min_le_left _ _) (by omega) (min_le_right supply.nMapped _)
      split
      · exact hcommits
      · exact hcommits.trans (ih nTries _ hcommits.backs (hfresh.getFrames (min_le_left _ _))
          hcommits.totalFrames_le (hcommits.freePages hfree))
    · split
      · exact ⟨h, le_refl _, htotal, fun page => .inl⟩
      · exact ih (nTries + 1) progress h hfresh.tail htotal hfree

end

section

variable {process : Process} {state : State} {recorded : Nat → Option (Nat × Nat)}

def Owned (live : List (Nat × Nat)) (page : Nat) : Prop :=
  ∃ range ∈ live, InRange range page

def Cached (allocCache : List Nat) (page : Nat) : Prop :=
  ∃ vaddr ∈ allocCache, page = vaddr / pagingBaseSize

variable {vaddr : Nat}

theorem mem_singles {allocCache : List Nat} (h : vaddr ∈ allocCache) :
    (vaddr, 1) ∈ singles allocCache :=
  mem_map.mpr ⟨vaddr, h, rfl⟩

variable {stream : VaddrSpaceStream}

theorem not_owned_of_holds {live : List (Nat × Nat)}
    {allocCache : List Nat} {range : Nat × Nat} {taken : Multiset (Nat × Nat)}
    (hholds : Holds process.config stream taken) (hnonempty : ∀ range ∈ taken, 0 < range.2)
    (htaken : taken = range ::ₘ ((live : Multiset (Nat × Nat)) + singles allocCache)) {page : Nat}
    (hpage : InRange range page) : ¬ Owned live page ∧ ¬ Cached allocCache page := by
  constructor
  · rintro ⟨other, hother, hpage'⟩
    exact not_inRange_of_holds hholds hnonempty htaken (mem_add.mpr (.inl hother)) page
      ⟨hpage, hpage'⟩
  · rintro ⟨vaddr, hvaddr, rfl⟩
    refine not_inRange_of_holds hholds hnonempty htaken
      (mem_add.mpr (.inr (mem_singles hvaddr))) _ ⟨hpage, le_refl _, ?_⟩
    exact Nat.lt_succ_self _

variable {nPages : Nat}

variable (h : Owns process state recorded)

include h

theorem not_owned_of_new {ret : Nat} (hpages : 0 < nPages)
    (hholds : Holds process.config stream ((ret, nPages) ::ₘ state.taken)) {page : Nat}
    (hpage : InRange (ret, nPages) page) :
    ¬ Owned state.live page ∧ ¬ Cached state.allocCache page := by
  refine not_owned_of_holds hholds ?_ rfl hpage
  intro range hrange
  rcases Multiset.mem_cons.mp hrange with rfl | hrange
  · exact hpages
  · exact h.nonempty range hrange

variable (hlive : (vaddr, nPages) ∈ state.live)

include hlive

theorem not_owned_of_live {page : Nat} (hpage : InRange (vaddr, nPages) page) :
    ¬ Owned (state.live.filter fun range => decide (range.1 ≠ vaddr)) page ∧
      ¬ Cached state.allocCache page := by
  refine not_owned_of_holds h.holds h.nonempty ?_ hpage
  rw [State.taken, h.live_eq hlive, cons_add]

theorem owned_filter {page : Nat} (howned : Owned state.live page)
    (hpage : ¬ InRange (vaddr, nPages) page) :
    Owned (state.live.filter fun range => decide (range.1 ≠ vaddr)) page := by
  obtain ⟨range, hrange, hpage'⟩ := howned
  have hmem : range ∈ (state.live : Multiset (Nat × Nat)) := hrange
  rw [h.live_eq hlive] at hmem
  rcases Multiset.mem_cons.mp hmem with rfl | hmem
  · exact absurd hpage' hpage
  · exact ⟨range, hmem, hpage'⟩

theorem lookup_of_live : AllocTable.lookup state.allocTable vaddr = .ok (nPages, 0) := by
  have hrecorded : recorded vaddr = some (nPages, 0) :=
    (h.recorded_iff vaddr _).mpr ⟨nPages, rfl, mem_add.mpr (.inl hlive)⟩
  rw [AllocTable.lookup_eq h.records, AllocTable.found, hrecorded]

omit hlive

omit h

def FramesBacked (state : State) : Prop :=
  Backs state.pages state.held (Owned state.live) (Cached state.allocCache)

def FramesFresh (state : State) : Call → Prop
  | .memAlloc _ _ env => FreshFrames state.held env.supplies
  | .memFree _ _ => True

def FreesLive (state : State) : Call → Prop
  | .memFree vaddr _ => ∃ range ∈ state.live, range.1 = vaddr
  | .memAlloc _ _ _ => True

/-- The frame of `other` is among the `nFrames` ones from the frame of `page` on. -/
def Hits (pages : PageMap) (nFrames page other : Nat) : Prop :=
  frameOf pages page ≤ frameOf pages other ∧ frameOf pages other < frameOf pages page + nFrames

instance (pages : PageMap) (nFrames page other : Nat) : Decidable (Hits pages nFrames page other) :=
  inferInstanceAs (Decidable (_ ∧ _))

/-- The frames that are released with each backed page of an allocation, as many as it has
pages, are in no other allocation and behind no cached page. -/
def ReleasesOwn (state : State) (vaddr nPages : Nat) : Prop :=
  ∀ i < nPages, present state.pages (vaddr / pagingBaseSize + i) = true →
    (∀ range ∈ state.live, range.1 ≠ vaddr → ∀ j < range.2,
      present state.pages (range.1 / pagingBaseSize + j) = true →
        ¬ Hits state.pages nPages (vaddr / pagingBaseSize + i) (range.1 / pagingBaseSize + j)) ∧
    ∀ cached ∈ state.allocCache,
      ¬ Hits state.pages nPages (vaddr / pagingBaseSize + i) (cached / pagingBaseSize)

/-- A page that is freed into the alloc cache is present, and an allocation that is unmapped
releases no frames of others. -/
def KeepsFrames (state : State) : Call → Prop
  | .memFree vaddr _ =>
    ∀ found ∈ (AllocTable.lookup state.allocTable vaddr).toOption,
      if removes state vaddr then ReleasesOwn state vaddr found.1
      else present state.pages (vaddr / pagingBaseSize) = true
  | .memAlloc _ _ _ => True

instance (state : State) : ∀ call, Decidable (FramesFresh state call)
  | .memAlloc _ _ _ => inferInstanceAs (Decidable ((∀ _ ∈ _, _ ∧ ∀ _ < _, _) ∧ List.Pairwise _ _))
  | .memFree _ _ => inferInstanceAs (Decidable True)

instance (state : State) : ∀ call, Decidable (FreesLive state call)
  | .memFree _ _ => inferInstanceAs (Decidable (∃ _ ∈ _, _))
  | .memAlloc _ _ _ => inferInstanceAs (Decidable True)

instance (state : State) (vaddr nPages : Nat) : Decidable (ReleasesOwn state vaddr nPages) :=
  inferInstanceAs (Decidable (∀ i < nPages, present state.pages (vaddr / pagingBaseSize + i) = true →
    (∀ range ∈ state.live, range.1 ≠ vaddr → ∀ j < range.2,
      present state.pages (range.1 / pagingBaseSize + j) = true →
        ¬ Hits state.pages nPages (vaddr / pagingBaseSize + i) (range.1 / pagingBaseSize + j)) ∧
    ∀ cached ∈ state.allocCache,
      ¬ Hits state.pages nPages (vaddr / pagingBaseSize + i) (cached / pagingBaseSize)))

instance (state : State) : ∀ call, Decidable (KeepsFrames state call)
  | .memFree vaddr _ =>
    inferInstanceAs (Decidable (∀ found ∈ (AllocTable.lookup state.allocTable vaddr).toOption,
      if removes state vaddr then ReleasesOwn state vaddr found.1
      else present state.pages (vaddr / pagingBaseSize) = true))
  | .memAlloc _ _ _ => inferInstanceAs (Decidable True)

theorem commitNFrames_le (nPages : Nat) (flags : Flags) : commitNFrames nPages flags ≤ nPages := by
  unfold commitNFrames fakemapPageTransform
  split
  · exact Nat.zero_le _
  split
  · exact le_refl _
  · split
    · omega
    · exact le_refl _

theorem FramesBacked.committed (h : FramesBacked state) (howns : Owns process state recorded)
    {ret : Nat} {flags : Flags} {supplies : List Supply}
    {committed : Bool} {progress : Progress} {pages : PageMap} (hpages : 0 < nPages)
    (hfresh : FreshFrames state.held supplies)
    (hholds : Holds process.config stream ((ret, nPages) ::ₘ state.taken))
    (hprogress : commitFrames (backedFlags process) (ret / pagingBaseSize)
      (commitNFrames nPages flags) supplies 0 ⟨0, state.pages, state.held⟩ = (committed, progress))
    (hfakemaps : Fakemaps process progress.pages (ret / pagingBaseSize + progress.totalFrames)
      (nPages - progress.totalFrames) pages) :
    progress.totalFrames ≤ nPages ∧
    Backs pages progress.held (fun page => Owned state.live page ∨
      ret / pagingBaseSize ≤ page ∧ page < ret / pagingBaseSize + progress.totalFrames)
      (Cached state.allocCache) := by
  have hunused : ∀ page, InRange (ret, nPages) page →
      ¬ Used state.pages (Cached state.allocCache) page := by
    intro page hpage hused
    obtain ⟨hlive, hcached⟩ := not_owned_of_new howns hpages hholds hpage
    rcases hused with hpresent | hused
    · exact hlive (h.owned_of_present page hpresent)
    · exact hcached hused
  have hcommit := commitNFrames_le nPages flags
  have hstart : Backs state.pages state.held (Owned ((ret, nPages) :: state.live))
      (Cached state.allocCache) := by
    refine Backs.congr h rfl rfl (fun _ => rfl) (fun _ => id) ?_
    intro page hpresent
    obtain ⟨range, hrange, hpage⟩ := h.owned_of_present page hpresent
    exact ⟨range, mem_cons_of_mem _ hrange, hpage⟩
  have hfree : FreePages (Owned ((ret, nPages) :: state.live)) (Cached state.allocCache)
      (ret / pagingBaseSize) (commitNFrames nPages flags) ⟨0, state.pages, state.held⟩ := by
    intro page hle hlt
    have hpage : InRange (ret, nPages) page :=
      ⟨hle, Nat.lt_of_lt_of_le hlt (Nat.add_le_add_left hcommit _)⟩
    exact ⟨⟨(ret, nPages), mem_cons_self, hpage⟩, hunused page hpage⟩
  have hcommits : Commits (Owned ((ret, nPages) :: state.live)) (Cached state.allocCache)
      (ret / pagingBaseSize) (commitNFrames nPages flags) ⟨0, state.pages, state.held⟩
      progress := by
    have hflags : backedFlags process < pagingBaseSize := encodeFlags_lt _
    have hloop := Backs.commitFrames hflags supplies 0 _ hstart hfresh (Nat.zero_le _) hfree
    rw [hprogress] at hloop
    exact hloop
  have htotal : progress.totalFrames ≤ nPages := hcommits.totalFrames_le.trans hcommit
  -- The pages behind the last frame have none, so they can be fakemapped.
  have hrest : ∀ page, ret / pagingBaseSize + progress.totalFrames ≤ page →
      page < ret / pagingBaseSize + nPages →
        ¬ Used progress.pages (Cached state.allocCache) page := by
    intro page hle hlt hused
    rcases hcommits.used page hused with hused | hmem
    · exact hunused page ⟨(Nat.le_add_right _ _).trans hle, hlt⟩ hused
    · omega
  have hbacks : Backs progress.pages progress.held (fun page => Owned state.live page ∨
      ret / pagingBaseSize ≤ page ∧ page < ret / pagingBaseSize + progress.totalFrames)
      (Cached state.allocCache) := by
    refine hcommits.backs.congr rfl rfl (fun _ => rfl) (fun _ => id) ?_
    intro page hpresent
    obtain ⟨range, hrange, hpage⟩ := hcommits.backs.owned_of_present page hpresent
    rcases mem_cons.mp hrange with rfl | hrange
    · refine .inr ⟨hpage.1, ?_⟩
      rcases lt_or_ge page (ret / pagingBaseSize + progress.totalFrames) with hlt | hge
      · exact hlt
      · exact absurd (.inl hpresent) (hrest page hge hpage.2)
    · exact .inl ⟨range, hrange, hpage⟩
  refine ⟨htotal, ?_⟩
  rcases hfakemaps with rfl | ⟨nMapped, hmapped, rfl⟩
  · exact hbacks
  · refine hbacks.mapNoInc ?_
    intro page hle hlt
    exact hrest page hle (by omega)

theorem FramesBacked.allocs (h : FramesBacked state) (howns : Owns process state recorded)
    {flags : Flags} {env : Env} {next : State} (hpages : 0 < nPages)
    (hfresh : FreshFrames state.held env.supplies)
    (hallocs : Allocs process state nPages flags env next) : FramesBacked next := by
  unfold FramesBacked
  cases hallocs with
  | nothing hcache hpages hheld hlive =>
    rw [hcache, hpages, hheld, hlive]
    exact h
  | fromCache ret hnPages hcache hpages hheld hlive =>
    have hcached : Cached state.allocCache (ret / pagingBaseSize) :=
      ⟨ret, by simp [hcache], rfl⟩
    rw [hpages, hheld, hlive]
    refine Backs.setAttributes h (.inr hcached) ?_ ?_ ?_
    · rintro other - ⟨vaddr, hvaddr, heq⟩
      exact ⟨vaddr, by simp [hcache, hvaddr], heq⟩
    · intro _
      exact ⟨(ret, nPages), mem_cons_self, le_refl _, by dsimp only; omega⟩
    · rintro other - ⟨range, hrange, hpage⟩
      exact ⟨range, mem_cons_of_mem _ hrange, hpage⟩
  | failed ret stream committed progress pages hholds hprogress hfakemaps hcache hunmap hlive =>
    obtain ⟨htotal, hbacks⟩ :=
      h.committed howns hpages hfresh hholds hprogress hfakemaps
    have hspec := unmapPages_spec 1 progress.totalFrames (ret / pagingBaseSize) pages
      progress.held
    rw [← hunmap] at hspec
    rw [hcache, hlive]
    have hunmaps := hbacks.unmaps hspec ?_ ?_
    · refine hunmaps.congr rfl rfl (fun _ => rfl) (fun _ => id) ?_
      intro page hpresent
      obtain ⟨howned, hout⟩ := hunmaps.owned_of_present page hpresent
      exact howned.resolve_right hout
    · intro page hle hlt
      exact (not_owned_of_new howns hpages hholds ⟨hle, by dsimp only; omega⟩).2
    · rintro page other hle hlt hpresent hused hout ⟨hframe, hframe'⟩
      have hsame := hbacks.frames_inj page other (.inl hpresent) hused (by omega)
      exact hout (hsame ▸ ⟨hle, hlt⟩)
  | mapped ret committed progress hholds hprogress hfakemaps hcache hheld hlive =>
    obtain ⟨htotal, hbacks⟩ :=
      h.committed howns hpages hfresh hholds hprogress hfakemaps
    rw [hcache, hheld, hlive]
    refine hbacks.congr rfl rfl (fun _ => rfl) (fun _ => id) ?_
    intro page hpresent
    rcases hbacks.owned_of_present page hpresent with ⟨range, hrange, hpage⟩ | ⟨hle, hlt⟩
    · exact ⟨range, mem_cons_of_mem _ hrange, hpage⟩
    · exact ⟨(ret, nPages), mem_cons_self, hle, by dsimp only; omega⟩

theorem FramesBacked.frees (h : FramesBacked state) (howns : Owns process state recorded)
    {newNode : Option Ptr} {next : State}
    (hkeeps : KeepsFrames state (.memFree vaddr newNode)) (hfrees : Frees state vaddr next) :
    FramesBacked next := by
  unfold FramesBacked
  cases hfrees with
  | nothing hnext =>
    rw [hnext]
    exact h
  | toCache hlive hcaches hcache hpages hheld hnext =>
    have hpresent := hkeeps (1, 0) (by rw [lookup_of_live howns hlive]; rfl)
    rw [if_neg (by simp [hcaches])] at hpresent
    rw [hcache, hpages, hheld, hnext]
    refine Backs.setAttributes h (.inl hpresent) ?_ ?_ ?_
    · rintro other hne ⟨vaddr', hvaddr', heq⟩
      rcases mem_cons.mp hvaddr' with rfl | hvaddr'
      · exact absurd heq hne
      · exact ⟨vaddr', hvaddr', heq⟩
    · simp [SetAttributes.opBit]
    · intro other hne howned
      refine owned_filter howns hlive howned ?_
      rintro ⟨hle, hlt⟩
      dsimp only at hle hlt
      omega
  | toSwamp nPages hlive hremoves hcache hunmap hnext =>
    have hreleases := hkeeps (nPages, 0) (by rw [lookup_of_live howns hlive]; rfl)
    rw [if_pos hremoves] at hreleases
    have hspec := unmapPages_spec nPages nPages (vaddr / pagingBaseSize) state.pages state.held
    rw [← hunmap] at hspec
    rw [hcache, hnext]
    have hunmaps := Backs.unmaps h hspec ?_ ?_
    · refine hunmaps.congr rfl rfl (fun _ => rfl) (fun _ => id) ?_
      intro page hpresent
      obtain ⟨howned, hout⟩ := hunmaps.owned_of_present page hpresent
      exact owned_filter howns hlive howned hout
    · intro page hle hlt
      exact (not_owned_of_live howns hlive ⟨hle, hlt⟩).2
    · intro page other hle hlt hpresent hused hout
      have hpage : vaddr / pagingBaseSize + (page - vaddr / pagingBaseSize) = page := by omega
      have hcond := hreleases (page - vaddr / pagingBaseSize) (by omega)
      rw [hpage] at hcond
      obtain ⟨hlives, hcacheds⟩ := hcond hpresent
      rcases hused with hpresent' | ⟨vaddr', hvaddr', rfl⟩
      · obtain ⟨range, hrange, hle', hlt'⟩ :=
          owned_filter howns hlive (h.owned_of_present other hpresent') hout
        obtain ⟨hrange, hne⟩ := mem_filter.mp hrange
        have hother : range.1 / pagingBaseSize + (other - range.1 / pagingBaseSize) = other := by
          omega
        have hapart := hlives range hrange (of_decide_eq_true hne)
          (other - range.1 / pagingBaseSize) (by omega)
        rw [hother] at hapart
        exact hapart hpresent'
      · exact hcacheds vaddr' hvaddr'

theorem not_cached_of_live (h : Owns process state recorded) {range : Nat × Nat}
    (hrange : range ∈ state.live) : range.1 ∉ state.allocCache := by
  intro hcached
  have hpages := h.nonempty range (mem_add.mpr (.inl hrange))
  exact (not_owned_of_live h hrange ⟨le_refl _, by dsimp only; omega⟩).2
    ⟨range.1, hcached, rfl⟩

end

section

variable (process : Process)

/-- Every present page of a live allocation maps a frame that was handed out and not released
since, and no page that is only fakemapped is present. -/
def FramesOwned (state : State) : Prop :=
  (∀ range ∈ state.live, ∀ page, InRange range page → present state.pages page = true →
    state.held (frameOf state.pages page) = true) ∧
  ∀ page, state.pages.fakemapped page = true → present state.pages page = false

theorem FramesBacked.framesOwned {state : State} (h : FramesBacked state) : FramesOwned state := by
  constructor
  · intro range hrange page hpage hpresent
    exact h.held_of_used page (.inl hpresent)
  · intro page hfakemapped
    cases hpresent : present state.pages page with
    | false => rfl
    | true =>
      rw [h.fakemapped_of_used page (.inl hpresent)] at hfakemapped
      contradiction

theorem step_framesBacked (state : State) (call : Call)
    (h : (∃ recorded, Owns process state recorded) ∧ FramesBacked state)
    (hguard : Supplied process state call ∧ WithinBlocks state call ∧ FramesFresh state call ∧
      FreesLive state call ∧ KeepsFrames state call) :
    ∃ answer next, step process state call = some (answer, next) ∧
      (∃ recorded, Owns process next recorded) ∧ FramesBacked next := by
  obtain ⟨⟨recorded, howns⟩, hbacked⟩ := h
  obtain ⟨hsupplied, hwithin, hfresh, hlive, hkeeps⟩ := hguard
  cases call with
  | memAlloc nPages flags env =>
    rcases eq_zero_or_pos nPages with rfl | hpages
    · exact ⟨0, state, rfl, ⟨recorded, howns⟩, hbacked⟩
    · obtain ⟨answer, next, recorded', heq, howns', hallocs⟩ := howns.memAlloc hsupplied
      exact ⟨answer, next, heq, ⟨recorded', howns'⟩, hbacked.allocs howns hpages hfresh hallocs⟩
  | memFree vaddr newNode =>
    obtain ⟨range, hrange, rfl⟩ := hlive
    obtain ⟨next, recorded', heq, howns', hfrees⟩ :=
      howns.memFree (not_cached_of_live howns hrange) hwithin hsupplied
    exact ⟨0, next, by simp [step, heq], ⟨recorded', howns'⟩, hbacked.frees howns hkeeps hfrees⟩

theorem framesBacked_initialState : FramesBacked (initialState process) := by
  have hunused : ∀ page, ¬ Used (initialState process).pages
      (Cached (initialState process).allocCache) page := by
    rintro page (hpresent | ⟨vaddr, hvaddr, -⟩)
    · simp [present, initialState] at hpresent
    · simp [initialState] at hvaddr
  exact ⟨fun page hpresent => absurd (.inl hpresent) (hunused page),
    fun page hused => absurd hused (hunused page), fun page hused => absurd hused (hunused page),
    fun page _ hused => absurd hused (hunused page), fun page hused => absurd hused (hunused page),
    fun page hused => absurd hused (hunused page)⟩

/-- Every run that frees no page without a frame into the alloc cache, and none of whose
multiple releases hits a frame of others, returns and leaves every present page with a frame
of the process. -/
theorem calls_framesOwned (calls : List Call)
    (h : Guarded (step process) (fun state call => Supplied process state call ∧
      WithinBlocks state call ∧ FramesFresh state call ∧ FreesLive state call ∧
      KeepsFrames state call) (initialState process) calls) :
    ∃ answers last, run (step process) (initialState process) calls = some (answers, last) ∧
      FramesOwned last := by
  obtain ⟨answers, last, hrun, -, hbacked⟩ := run_invariant (step_framesBacked process)
    ⟨⟨_, owns_initialState process⟩, framesBacked_initialState process⟩ h
  exact ⟨answers, last, hrun, hbacked.framesOwned⟩

end

/-- Two pages that have frames of their own are freed and allocated again, through the cache
and past it. -/
def reuse : List Call :=
  [.memAlloc 1 noFlags (oneFrame 10), .memFree 0x100000 none, .memAlloc 1 noFlags (oneFrame 11),
    .memAlloc 2 noFlags { oneFrame 20 with supplies := [⟨20, 1, 1⟩, ⟨30, 1, 1⟩] },
    .memFree 0x101000 (some 5)]

theorem calls_framesOwned_reuse :
    ∃ answers last, run (step smallProcess) (initialState smallProcess) reuse =
        some (answers, last) ∧
      last.live = [(0x100000, 1)] ∧ present last.pages 0x100 = true ∧ FramesOwned last := by
  have hrun : ((run (step smallProcess) (initialState smallProcess) reuse).any
      fun r => decide (r.2.live = [(0x100000, 1)] ∧ present r.2.pages 0x100 = true)) = true := by
    decide +kernel
  obtain ⟨⟨answers, last⟩, hlast, hstate⟩ := (Option.any_eq_true _ _).mp hrun
  obtain ⟨answers', last', hlast', howned⟩ :=
    calls_framesOwned smallProcess reuse (by decide +kernel)
  obtain ⟨rfl, rfl⟩ := Prod.mk.inj (Option.some.inj (hlast.symm.trans hlast'))
  obtain ⟨hlive, hpresent⟩ := of_decide_eq_true hstate
  exact ⟨answers, last, hlast, hlive, hpresent, howned⟩

def reuseFakemapped : List Call :=
  [.memAlloc 1 { noFlags with pureVirtual := true } { oneFrame 10 with nFakemapped := 1 },
    .memFree 0x100000 none, .memAlloc 1 noFlags (oneFrame 11)]

theorem reuseFakemapped_present :
    ¬ ∀ calls, Guarded (step smallProcess) (fun state call => Supplied smallProcess state call ∧
        FramesFresh state call ∧ FreesLive state call) (initialState smallProcess) calls →
      ∀ answers last, run (step smallProcess) (initialState smallProcess) calls =
        some (answers, last) → FramesOwned last := by
  intro hclaim
  have hrun : ((run (step smallProcess) (initialState smallProcess) reuseFakemapped).any
      fun r => decide (r.2.pages.fakemapped 0x100 = true ∧ present r.2.pages 0x100 = true)) =
        true := by decide +kernel
  obtain ⟨⟨answers, last⟩, hlast, hstate⟩ := (Option.any_eq_true _ _).mp hrun
  obtain ⟨hfakemapped, hpresent⟩ := of_decide_eq_true hstate
  have howned := hclaim reuseFakemapped (by decide +kernel) answers last hlast
  exact Bool.false_ne_true ((howned.2 0x100 hfakemapped).symm.trans hpresent)

end Zambesii.MemoryStreamFrames
