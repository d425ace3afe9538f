import Mathlib.Data.Nat.Bitwise
import Zambesii.EqualizerList
import Zambesii.KernelTypes
import Zambesii.Runs

/-!
`AllocTable`: the dynamic allocations of a process by their addresses. The page count and
the attributes of an allocation share one word.
-/

namespace Zambesii.AllocTable

open Function List
open EqualizerList KernelTypes Runs

/-- `nPages` has the attributes in its low bits. -/
structure AllocTableEntry where
  vaddr : Nat
  nPages : Nat
deriving DecidableEq

/-- The operators of `AllocTableEntry`. Assigning 0 leaves `nPages` as it is. -/
def operators : Operators AllocTableEntry where
  key := AllocTableEntry.vaddr
  clear := fun entry => { entry with vaddr := 0 }
  key_clear := fun _ => rfl

def sizeofEntry : Nat := 8

def sizeofHeader : Nat := 8

def pageblockNEntries : Nat := (pagingBaseSize - sizeofHeader) / sizeofEntry

def alloctableAttribMask : Nat := 0xF

def alloctableNPagesShift : Nat := 4

abbrev Table := List (Block AllocTableEntry)

def packed (nPages attrib : Nat) : Nat :=
  (nPages <<< alloctableNPagesShift) % wordModulus ||| (attrib &&& alloctableAttribMask)

/-- What `lookup` reads from the stored word: the page count and the attributes. -/
def unpacked (word : Nat) : Nat × Nat :=
  (word >>> alloctableNPagesShift, word &&& alloctableAttribMask)

/-- `AllocTable::addEntry`. `memory` is what the allocation of a new block returns. -/
def addEntry (table : Table) (vaddr nPages attrib : Nat)
    (memory : Option (List AllocTableEntry)) : Option (Kerror × Table) := do
  let (added, table) ← EqualizerList.addEntry operators pageblockNEntries table
    ⟨vaddr, packed nPages attrib⟩ memory
  some (if added then .success else .memoryNomem, table)

def removeEntry (table : Table) (vaddr : Nat) : Option Table :=
  EqualizerList.removeEntry operators pageblockNEntries table ⟨vaddr, 0⟩

/-- `AllocTable::lookup`: the page count and the attributes. -/
def lookup (table : Table) (vaddr : Nat) : Except Kerror (Nat × Nat) :=
  match find operators table ⟨vaddr, 0⟩ with
  | none => .error .general
  | some ret => .ok (unpacked ret.nPages)

theorem unpacked_packed {nPages attrib : Nat} (hnPages : nPages < 2 ^ 28)
    (hattrib : attrib < 2 ^ 4) : unpacked (packed nPages attrib) = (nPages, attrib) := by
  have hshift : (nPages <<< alloctableNPagesShift) % wordModulus = 2 ^ 4 * nPages := by
    rw [Nat.shiftLeft_eq, Nat.mod_eq_of_lt]
    · rw [mul_comm]
      rfl
    · simp only [alloctableNPagesShift, wordModulus]
      omega
  have hmask : attrib &&& alloctableAttribMask = attrib := by
    have hand := Nat.and_two_pow_sub_one_eq_mod attrib 4
    rw [Nat.mod_eq_of_lt hattrib] at hand
    exact hand
  have hor : 2 ^ 4 * nPages ||| attrib = 2 ^ 4 * nPages + attrib :=
    (Nat.two_pow_add_eq_or_of_lt hattrib nPages).symm
  have hlow : (2 ^ 4 * nPages + attrib) &&& alloctableAttribMask = attrib := by
    have hand := Nat.and_two_pow_sub_one_eq_mod (2 ^ 4 * nPages + attrib) 4
    refine hand.trans ?_
    omega
  have hhigh : (2 ^ 4 * nPages + attrib) >>> alloctableNPagesShift = nPages := by
    simp only [alloctableNPagesShift]
    omega
  rw [packed, hshift, hmask, hor, unpacked, hlow, hhigh]

/-- The table's entries are those of the allocations in `live`. -/
structure Records (table : Table) (live : Nat → Option (Nat × Nat)) : Prop where
  wellFormed : ∀ block ∈ table, WellFormed operators pageblockNEntries block
  nodup : ((contents pageblockNEntries table).map AllocTableEntry.vaddr).Nodup
  live_iff : ∀ vaddr value, live vaddr = some value ↔
    ∃ entry ∈ contents pageblockNEntries table, entry.vaddr = vaddr ∧
      unpacked entry.nPages = value

theorem records_nil : Records [] fun _ => none := by
  refine ⟨by simp, by simp [contents], ?_⟩
  intro vaddr value
  simp [contents]

def found (live : Nat → Option (Nat × Nat)) (vaddr : Nat) : Except Kerror (Nat × Nat) :=
  match live vaddr with
  | none => .error .general
  | some value => .ok value

variable {table : Table} {live : Nat → Option (Nat × Nat)} {vaddr : Nat}

variable (h : Records table live)

include h

theorem lookup_eq (vaddr : Nat) : lookup table vaddr = found live vaddr := by
  unfold lookup found
  rw [find_eq h.wellFormed]
  cases hfind : (contents pageblockNEntries table).find?
      fun entry => decide (operators.key entry = operators.key ⟨vaddr, 0⟩) with
  | some entry =>
    have hfound := find?_some hfind
    have hkey : entry.vaddr = vaddr := of_decide_eq_true hfound
    rw [(h.live_iff vaddr (unpacked entry.nPages)).mpr
      ⟨entry, mem_of_find?_eq_some hfind, hkey, rfl⟩]
  | none =>
    cases hlive : live vaddr with
    | none => rfl
    | some value =>
      obtain ⟨entry, hentry, hkey, -⟩ := (h.live_iff vaddr value).mp hlive
      rw [find?_eq_none] at hfind
      exact absurd (decide_eq_true hkey) (hfind entry hentry)

theorem vaddr_ne_of_live_none (hnone : live vaddr = none)
    {entry : AllocTableEntry} (hentry : entry ∈ contents pageblockNEntries table) :
    entry.vaddr ≠ vaddr := by
  rintro rfl
  rw [(h.live_iff _ _).mpr ⟨entry, hentry, rfl, rfl⟩] at hnone
  contradiction

theorem addEntry_records {nPages attrib : Nat} (hvaddr : vaddr ≠ 0)
    (hnone : live vaddr = none) (hnPages : nPages < 2 ^ 28) (hattrib : attrib < 2 ^ 4)
    {memory : Option (List AllocTableEntry)}
    (hmemory : ∀ page ∈ memory, page.length = pageblockNEntries) :
    (∃ table', addEntry table vaddr nPages attrib memory = some (.success, table') ∧
      Records table' (update live vaddr (some (nPages, attrib)))) ∨
    addEntry table vaddr nPages attrib memory = some (.memoryNomem, table) ∧ memory = none := by
  have hnew : ∀ entry ∈ contents pageblockNEntries table,
      operators.key entry ≠ operators.key ⟨vaddr, packed nPages attrib⟩ :=
    fun entry hentry => vaddr_ne_of_live_none h hnone hentry
  have hkey : operators.key ⟨vaddr, packed nPages attrib⟩ ≠ 0 := hvaddr
  rcases EqualizerList.addEntry_spec h.wellFormed (by decide) hkey hnew hmemory with
    ⟨table', heq, hwellFormed, hperm⟩ | ⟨heq, hmemory⟩
  · refine .inl ⟨table', by simp [addEntry, heq], hwellFormed, ?_, ?_⟩
    · rw [(hperm.map AllocTableEntry.vaddr).nodup_iff, map_cons, nodup_cons]
      refine ⟨?_, h.nodup⟩
      intro hmem
      obtain ⟨entry, hentry, hkey⟩ := mem_map.mp hmem
      exact hnew entry hentry hkey
    · intro other value
      rcases eq_or_ne other vaddr with rfl | hother
      · rw [update_self]
        constructor
        · intro hvalue
          cases hvalue
          exact ⟨_, hperm.mem_iff.mpr mem_cons_self, rfl, unpacked_packed hnPages hattrib⟩
        · rintro ⟨entry, hentry, hkey, rfl⟩
          rcases mem_cons.mp (hperm.mem_iff.mp hentry) with rfl | hentry
          · rw [unpacked_packed hnPages hattrib]
          · exact absurd hkey (hnew entry hentry)
      · rw [update_of_ne hother, h.live_iff]
        constructor
        · rintro ⟨entry, hentry, hkey, hvalue⟩
          exact ⟨entry, hperm.mem_iff.mpr (mem_cons_of_mem _ hentry), hkey, hvalue⟩
        · rintro ⟨entry, hentry, hkey, hvalue⟩
          rcases mem_cons.mp (hperm.mem_iff.mp hentry) with rfl | hentry
          · exact absurd hkey.symm hother
          · exact ⟨entry, hentry, hkey, hvalue⟩
  · exact .inr ⟨by simp [addEntry, heq], hmemory⟩

theorem removeEntry_records (hbounded : Bounded operators ⟨vaddr, 0⟩ table) :
    ∃ table', removeEntry table vaddr = some table' ∧ Records table' (update live vaddr none) := by
  obtain ⟨table', heq, hwellFormed, hcases⟩ :=
    EqualizerList.removeEntry_spec h.wellFormed hbounded
  refine ⟨table', heq, ?_⟩
  rcases hcases with ⟨removed, hremoved, hperm⟩ | ⟨rfl, habsent⟩
  · have hnodup := h.nodup
    rw [(hperm.map AllocTableEntry.vaddr).nodup_iff, map_cons, nodup_cons] at hnodup
    have hkept : ∀ entry ∈ contents pageblockNEntries table', entry.vaddr ≠ vaddr := by
      intro entry hentry hkey
      refine hnodup.1 (mem_map.mpr ⟨entry, hentry, ?_⟩)
      exact hkey.trans hremoved.symm
    refine ⟨hwellFormed, hnodup.2, ?_⟩
    intro other value
    rcases eq_or_ne other vaddr with rfl | hother
    · rw [update_self]
      constructor
      · intro hvalue
        contradiction
      · rintro ⟨entry, hentry, hkey, -⟩
        exact absurd hkey (hkept entry hentry)
    rw [update_of_ne hother, h.live_iff]
    constructor
    · rintro ⟨entry, hentry, hkey, hvalue⟩
      rcases mem_cons.mp (hperm.mem_iff.mp hentry) with rfl | hentry
      · exact absurd (hkey.symm.trans hremoved) hother
      · exact ⟨entry, hentry, hkey, hvalue⟩
    · rintro ⟨entry, hentry, hkey, hvalue⟩
      exact ⟨entry, hperm.mem_iff.mpr (mem_cons_of_mem _ hentry), hkey, hvalue⟩
  · have hnone : live vaddr = none := by
      cases hlive : live vaddr with
      | none => rfl
      | some value =>
        obtain ⟨entry, hentry, hkey, -⟩ := (h.live_iff vaddr value).mp hlive
        exact absurd hkey (habsent entry hentry)
    rwa [← hnone, update_eq_self]

omit h

section

/-- `live` records what was added and not removed since. -/
structure State where
  table : Table
  live : Nat → Option (Nat × Nat)

def initialState : State where
  table := []
  live := fun _ => none

inductive Call
  | addEntry (vaddr nPages attrib : Nat) (memory : Option (List AllocTableEntry))
  | removeEntry (vaddr : Nat)
  | lookup (vaddr : Nat)
deriving DecidableEq

inductive Answer
  | added (error : Kerror)
  | removed
  | looked (result : Except Kerror (Nat × Nat))

def step (state : State) : Call → Option (Answer × State)
  | .addEntry vaddr nPages attrib memory => do
      let (error, table) ← addEntry state.table vaddr nPages attrib memory
      let live := if error = .success then
        update state.live vaddr (some (nPages, attrib)) else state.live
      some (.added error, ⟨table, live⟩)
  | .removeEntry vaddr => do
      let table ← removeEntry state.table vaddr
      some (.removed, ⟨table, update state.live vaddr none⟩)
  | .lookup vaddr => some (.looked (lookup state.table vaddr), state)

/-- The addresses that are added are not null and not in the table yet, their page count and
attributes fit the packed word, and a new block is a page. -/
def Fits (state : State) : Call → Prop
  | .addEntry vaddr nPages attrib memory =>
    vaddr ≠ 0 ∧ state.live vaddr = none ∧ nPages < 2 ^ 28 ∧ attrib < 2 ^ 4 ∧
      ∀ page ∈ memory, page.length = pageblockNEntries
  | _ => True

instance (state : State) : ∀ call, Decidable (Fits state call)
  | .addEntry _ _ _ _ => inferInstanceAs (Decidable (_ ∧ _ ∧ _ ∧ _ ∧ ∀ _ ∈ _, _))
  | .removeEntry _ | .lookup _ => inferInstanceAs (Decidable True)

def WithinBlocks (state : State) : Call → Prop
  | .removeEntry vaddr => Bounded operators ⟨vaddr, 0⟩ state.table
  | _ => True

instance (state : State) : ∀ call, Decidable (WithinBlocks state call)
  | .removeEntry _ => inferInstanceAs (Decidable (Bounded _ _ _))
  | .addEntry _ _ _ _ | .lookup _ => inferInstanceAs (Decidable True)

/-- `lookup` tells what was added and not removed since, and the blocks are in order. -/
def Sound (state : State) : Prop :=
  (∀ vaddr, lookup state.table vaddr = found state.live vaddr) ∧
    ∀ block ∈ state.table, WellFormed operators pageblockNEntries block

variable {state : State} {k : Nat}

theorem step_records (h : Records state.table state.live) {call : Call} (hfits : Fits state call)
    (hwithin : WithinBlocks state call) :
    ∃ answer next, step state call = some (answer, next) ∧ Records next.table next.live := by
  cases call with
  | addEntry vaddr nPages attrib memory =>
    obtain ⟨hvaddr, hnone, hnPages, hattrib, hmemory⟩ := hfits
    rcases addEntry_records h hvaddr hnone hnPages hattrib hmemory with
      ⟨table', heq, hrecords⟩ | ⟨heq, -⟩
    · exact ⟨.added .success, ⟨table', _⟩, by simp only [step, heq]; rfl, hrecords⟩
    · exact ⟨.added .memoryNomem, state, by simp [step, heq], h⟩
  | removeEntry vaddr =>
    obtain ⟨table', heq, hrecords⟩ := removeEntry_records h hwithin
    exact ⟨.removed, ⟨table', _⟩, by simp only [step, heq]; rfl, hrecords⟩
  | lookup vaddr => exact ⟨_, state, rfl, h⟩

/-- Every run whose searches stay within the blocks returns, and leaves the table in order. -/
theorem calls_sound (calls : List Call)
    (h : Guarded step (fun state call => Fits state call ∧ WithinBlocks state call)
      initialState calls) :
    ∃ answers last, run step initialState calls = some (answers, last) ∧ Sound last := by
  have hstep : ∀ state call, Records state.table state.live →
      Fits state call ∧ WithinBlocks state call →
        ∃ answer next, step state call = some (answer, next) ∧ Records next.table next.live :=
    fun state call hrecords hguard => step_records hrecords hguard.1 hguard.2
  obtain ⟨answers, last, hrun, hrecords⟩ := run_invariant hstep records_nil h
  exact ⟨answers, last, hrun, lookup_eq hrecords, hrecords.wellFormed⟩

def addAndRemove : List Call :=
  [.addEntry 4096 3 1 (some (List.replicate 511 ⟨7, 7⟩)), .lookup 4096, .removeEntry 4096,
    .addEntry 4096 5 0 none]

theorem calls_sound_addAndRemove :
    ∃ answers last, run step initialState addAndRemove = some (answers, last) ∧
      Sound last ∧ last.live 4096 = some (5, 0) := by
  have hrun : ((run step initialState addAndRemove).any
      fun r => decide (r.2.live 4096 = some (5, 0))) = true := by decide +kernel
  obtain ⟨⟨answers, last⟩, hlast, hlive⟩ := (Option.any_eq_true _ _).mp hrun
  obtain ⟨answers', last', hlast', hsound⟩ := calls_sound addAndRemove (by decide +kernel)
  obtain ⟨rfl, rfl⟩ := Prod.mk.inj (Option.some.inj (hlast.symm.trans hlast'))
  exact ⟨answers, last, hlast, hsound, of_decide_eq_true hlive⟩

/-- The allocation of the page after the first `i` ones. -/
def fillCall (i : Nat) : Call :=
  .addEntry (4096 * (i + 1)) 1 0 (some (List.replicate pageblockNEntries ⟨0, 0⟩))

/-- 511 allocations fill a block; the last call removes an address beyond all of them. -/
def fillAndRemove : List Call :=
  (List.range' 0 pageblockNEntries).map fillCall ++ [.removeEntry (4096 * 512)]

def filledEntries (k : Nat) : List AllocTableEntry :=
  (List.range k).map fun i => ⟨4096 * (i + 1), 16⟩

def filledBlock (k : Nat) : Block AllocTableEntry :=
  ⟨pageblockNEntries - k, filledEntries k ++ List.replicate (pageblockNEntries - k) ⟨0, 0⟩⟩

/-- The table after the first `k` of the allocations. -/
def Filled (k : Nat) (state : State) : Prop :=
  state.table = (if k = 0 then [] else [filledBlock k]) ∧
    ∀ vaddr, 4096 * k < vaddr → state.live vaddr = none

theorem key_lt_of_mem_filledEntries {entry : AllocTableEntry} (h : entry ∈ filledEntries k) :
    entry.vaddr ≠ 0 ∧ entry.vaddr < 4096 * (k + 1) := by
  obtain ⟨i, hi, rfl⟩ := mem_map.mp h
  rw [mem_range] at hi
  dsimp only
  omega

theorem addToBlock_filledBlock (hk : k < pageblockNEntries) :
    addToBlock operators (filledBlock k) ⟨4096 * (k + 1), 16⟩ = some (filledBlock (k + 1)) := by
  obtain ⟨n, hn⟩ : ∃ n, pageblockNEntries - k = n + 1 := ⟨pageblockNEntries - k - 1, by omega⟩
  have hn' : pageblockNEntries - (k + 1) = n := by omega
  have hadd : addToBlock operators
      ⟨n + 1, filledEntries k ++ ([] ++ ⟨0, 0⟩ :: replicate n ⟨0, 0⟩)⟩
        ⟨4096 * (k + 1), 16⟩ =
      some ⟨n + 1 - 1, filledEntries k ++ ⟨4096 * (k + 1), 16⟩ :: ([] ++ replicate n ⟨0, 0⟩)⟩ :=
    addToBlock_eq _ (n + 1) (fun entry hentry => key_lt_of_mem_filledEntries hentry) (by simp) rfl
  have hnext : filledEntries (k + 1) = filledEntries k ++ [⟨4096 * (k + 1), 16⟩] := by
    simp [filledEntries, range_succ]
  rw [filledBlock, filledBlock, hn, hn', hnext, replicate_succ]
  simpa using hadd

theorem step_filled (h : Filled k state) (hk : k < pageblockNEntries) : Fits state (fillCall k) ∧
      ∃ answer next, step state (fillCall k) = some (answer, next) ∧ Filled (k + 1) next := by
  obtain ⟨htable, hlive⟩ := h
  refine ⟨⟨by omega, hlive _ (by omega), by decide, by decide, by simp⟩, ?_⟩
  have hadd : addEntry state.table (4096 * (k + 1)) 1 0
      (some (replicate pageblockNEntries ⟨0, 0⟩)) = some (.success, [filledBlock (k + 1)]) := by
    have hpacked : packed 1 0 = 16 := by decide
    have hblock := addToBlock_filledBlock hk
    rw [addEntry, htable, hpacked]
    rcases eq_zero_or_pos k with rfl | hpos
    · have hnew : getNewBlock operators pageblockNEntries
          (replicate pageblockNEntries ⟨0, 0⟩) = filledBlock 0 := by
        simp [getNewBlock, filledBlock, filledEntries, operators]
      have hfind : findInsertionBlock ([] : Table) = none := rfl
      rw [if_pos rfl, EqualizerList.addEntry, hfind]
      rw [hnew, hblock]
      rfl
    have hfree : 0 < (filledBlock k).nFreeEntries := by
      simp only [filledBlock]
      omega
    have hfind : findInsertionBlock [filledBlock k] = some 0 := by simp [findInsertionBlock, hfree]
    rw [if_neg (by omega), EqualizerList.addEntry, hfind]
    simp [some_bind, hblock]
  refine ⟨_, _, by simp only [fillCall, step, hadd]; rfl, by simp, ?_⟩
  intro vaddr hvaddr
  dsimp only
  rw [if_pos rfl, update_of_ne (by omega)]
  exact hlive vaddr (by omega)

theorem removeEntry_filled (h : Filled pageblockNEntries state) :
    step state (.removeEntry (4096 * 512)) = none := by
  have hseek := seek_spec operators [] (filledEntries pageblockNEntries) [] [] ⟨4096 * 512, 0⟩
    (fun entry hentry => key_lt_of_mem_filledEntries hentry) (by simp)
  have hlength : (filledEntries pageblockNEntries).length = pageblockNEntries := by
    simp [filledEntries]
  have hentries : (filledBlock pageblockNEntries).entries = filledEntries pageblockNEntries := by
    simp [filledBlock]
  have hbeyond : (filledEntries pageblockNEntries)[pageblockNEntries]? = none := by simp [hlength]
  simp only [nil_append, append_nil, length_nil, add_zero, zero_add,
    hlength] at hseek
  have hfind : findDeletionEntry operators pageblockNEntries ⟨4096 * 512, 0⟩ state.table 0 =
      none := by
    rw [h.1, if_neg (by decide), findDeletionEntry, hentries]
    simp [filledBlock, hseek, hbeyond]
  simp [step, removeEntry, EqualizerList.removeEntry, hfind]

theorem run_filled {n : Nat} (h : Filled k state) (hkn : k + n = pageblockNEntries) :
    Guarded step Fits state ((List.range' k n).map fillCall ++ [.removeEntry (4096 * 512)]) ∧
      run step state ((List.range' k n).map fillCall ++ [.removeEntry (4096 * 512)]) = none := by
  induction n generalizing k state with
  | zero =>
    obtain rfl : k = pageblockNEntries := hkn
    have hnone := removeEntry_filled h
    refine ⟨⟨trivial, ?_⟩, ?_⟩
    · intro answer next hstep
      rw [hnone] at hstep
      contradiction
    · simp [run, hnone]
  | succ n ih =>
    obtain ⟨hfits, answer, next, hstep, hnext⟩ := step_filled h (by omega)
    obtain ⟨hguarded, hrun⟩ := ih hnext (by omega)
    rw [range'_succ, map_cons, cons_append]
    refine ⟨(guarded_cons hstep).mpr ⟨hfits, hguarded⟩, ?_⟩
    simp only [run, hstep, hrun]

theorem fillAndRemove_overruns :
    Guarded step Fits initialState fillAndRemove ∧ run step initialState fillAndRemove = none :=
  run_filled ⟨rfl, fun _ _ => rfl⟩ (zero_add _)

end

end Zambesii.AllocTable
