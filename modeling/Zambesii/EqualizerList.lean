import Mathlib.Data.List.Induction
import Mathlib.Data.List.Perm.Basic
import Mathlib.Data.List.TakeWhile

/-!
`__kEqualizerList`: objects in a list of page-sized blocks, sorted within each block only.
The unused entries of a block compare equal to 0; a full block has none. A function that
reads or writes beyond the entries of a block returns `none`.
-/

namespace Zambesii.EqualizerList

open List Option

structure Block (T : Type) where
  nFreeEntries : Nat
  entries : List T

section

variable {T : Type}

/-- The comparisons of the type: they look at `key` alone, and an entry is 0 when its key
is. `clear` is the assignment of 0. -/
structure Operators (T : Type) where
  key : T → Nat
  clear : T → T
  key_clear : ∀ entry, key (clear entry) = 0

variable (ops : Operators T) (nEntries : Nat)

def findInsertionBlock (blocks : List (Block T)) : Option Nat :=
  blocks.findIdx? fun current => decide (0 < current.nFreeEntries)

/-- `findInsertionEntry`; `entry` keeps the 0 it was given when no entry is found. -/
def findInsertionEntry (block : Block T) (item : T) : Nat :=
  (block.entries.findIdx? fun entry =>
    decide (ops.key item ≤ ops.key entry) || decide (ops.key entry = 0)).getD 0

def findCopyStart (block : Block T) (insEntry : Nat) : Nat :=
  insEntry + (block.entries.drop insEntry).findIdx fun entry => decide (ops.key entry = 0)

def copyUp (insEntry : Nat) : (remaining : Nat) → List T → Option (List T)
  | 0, entries => some entries
  | remaining + 1, entries => do
      let entry ← entries[insEntry + remaining]?
      if insEntry + remaining + 1 < entries.length then
        copyUp insEntry remaining (entries.set (insEntry + remaining + 1) entry)
      else none

def addToBlock (block : Block T) (item : T) : Option (Block T) := do
  let insEntry := findInsertionEntry ops block item
  let copyStart := findCopyStart ops block insEntry
  let entries ← copyUp insEntry (copyStart - insEntry) block.entries
  if insEntry < entries.length then
    some ⟨block.nFreeEntries - 1, entries.set insEntry item⟩
  else none

/-- `getNewBlock` on the memory that was allocated for the block. -/
def getNewBlock (memory : List T) : Block T :=
  ⟨nEntries, memory.map ops.clear⟩

/-- `addEntry`: whether the entry was added. `memory` is what `rawMemAlloc` returns. -/
def addEntry (blocks : List (Block T)) (item : T) (memory : Option (List T)) :
    Option (Bool × List (Block T)) :=
  match findInsertionBlock blocks with
  | some index => do
      let block ← blocks[index]?
      let block ← addToBlock ops block item
      some (true, blocks.set index block)
  | none =>
    match memory with
    | none => some (false, blocks)
    | some memory => do
        let block ← addToBlock ops (getNewBlock ops nEntries memory) item
        some (true, block :: blocks)

def findInBlock (item : T) : List T → Option T
  | [] => none
  | entry :: entries =>
    if ops.key entry ≠ 0 ∧ ops.key entry ≤ ops.key item then
      if ops.key entry = ops.key item then some entry else findInBlock item entries
    else none

def find (blocks : List (Block T)) (item : T) : Option T :=
  blocks.findSome? fun current => findInBlock ops item current.entries

/-- The inner loop of `findDeletionEntry`, with `remaining` occupied entries to go. -/
def seek (entries : List T) (item : T) : (remaining i : Nat) → Option Nat
  | 0, i => some i
  | remaining + 1, i => do
      let entry ← entries[i]?
      if ops.key entry ≠ 0 ∧ ops.key entry < ops.key item then
        seek entries item remaining (i + 1)
      else some i

/-- `findDeletionEntry`: the position of the block and of the entry. `index` is the
position of the first of `blocks`. -/
def findDeletionEntry (item : T) : List (Block T) → (index : Nat) → Option (Option (Nat × Nat))
  | [], _ => some none
  | current :: rest, index => do
      let i ← seek ops current.entries item (nEntries - current.nFreeEntries) 0
      let entry ← current.entries[i]?
      if ops.key entry ≠ 0 ∧ ops.key entry = ops.key item then some (some (index, i))
      else findDeletionEntry item rest (index + 1)

def copyDown : (remaining entry : Nat) → List T → Option (List T)
  | 0, _, entries => some entries
  | remaining + 1, entry, entries => do
      let next ← entries[entry + 1]?
      copyDown remaining (entry + 1) (entries.set entry next)

def removeFromBlock (block : Block T) (entry : Nat) : Option (Block T) := do
  let nOccupiedEntries := nEntries - block.nFreeEntries
  let entries ← copyDown (nOccupiedEntries - 1 - entry) entry block.entries
  let last ← entries[nOccupiedEntries - 1]?
  some ⟨block.nFreeEntries + 1, entries.set (nOccupiedEntries - 1) (ops.clear last)⟩

def removeEntry (blocks : List (Block T)) (item : T) : Option (List (Block T)) := do
  match ← findDeletionEntry ops nEntries item blocks 0 with
  | none => some blocks
  | some (index, entry) => do
      let block ← blocks[index]?
      let block ← removeFromBlock ops nEntries block entry
      some (blocks.set index block)

end

section

variable {T : Type}

theorem copyUp_spec (front back middle : List T) (free : T) :
    ∃ first, copyUp front.length middle.length (front ++ (middle ++ free :: back)) =
      some (front ++ first :: (middle ++ back)) := by
  induction middle using reverseRecOn generalizing free back with
  | nil => exact ⟨free, rfl⟩
  | append_singleton middle entry ih =>
    obtain ⟨first, hrest⟩ := ih (entry :: back) entry
    refine ⟨first, ?_⟩
    have hlength : (middle ++ [entry]).length = middle.length + 1 := by simp
    have hread : (front ++ (middle ++ [entry] ++ free :: back))[front.length + middle.length]? =
        some entry := by
      simp
    have hset : (front ++ (middle ++ [entry] ++ free :: back)).set
        (front.length + middle.length + 1) entry =
          front ++ (middle ++ entry :: entry :: back) := by
      simp [Nat.add_assoc]
    rw [hlength, copyUp, hread]
    simp only [bind_eq_bind, bind_some]
    rw [if_pos (by simp; omega), hset, hrest]
    simp

theorem copyDown_spec (front back middle : List T) (entry : T) :
    ∃ last, copyDown middle.length front.length (front ++ entry :: (middle ++ back)) =
      some (front ++ (middle ++ last :: back)) := by
  induction middle generalizing front entry with
  | nil => exact ⟨entry, rfl⟩
  | cons next middle ih =>
    obtain ⟨last, hrest⟩ := ih (front ++ [next]) next
    refine ⟨last, ?_⟩
    have hread : (front ++ entry :: (next :: middle ++ back))[front.length + 1]? =
        some next := by
      simp
    have hset : (front ++ entry :: (next :: middle ++ back)).set front.length next =
        front ++ [next] ++ next :: (middle ++ back) := by
      simp
    have hlength : front.length + 1 = (front ++ [next]).length := by simp
    rw [length_cons, copyDown, hread]
    simp only [bind_eq_bind, bind_some]
    rw [hset, hlength, hrest]
    simp

variable (ops : Operators T)

theorem seek_spec (front low high back : List T) (item : T)
    (hlow : ∀ entry ∈ low, ops.key entry ≠ 0 ∧ ops.key entry < ops.key item)
    (hhigh : ∀ entry ∈ high.head?, ¬ (ops.key entry ≠ 0 ∧ ops.key entry < ops.key item)) :
    seek ops (front ++ (low ++ (high ++ back))) item (low.length + high.length) front.length =
      some (front.length + low.length) := by
  induction low generalizing front with
  | nil =>
    cases high with
    | nil => rfl
    | cons entry high =>
      have hread : (front ++ (entry :: high ++ back))[front.length]? = some entry := by simp
      have hremaining : ([] : List T).length + (entry :: high).length = high.length + 1 := by simp
      rw [hremaining, nil_append, seek, hread]
      simp only [bind_eq_bind, bind_some]
      rw [if_neg (hhigh entry rfl)]
      rfl
  | cons entry low ih =>
    have hread : (front ++ (entry :: low ++ (high ++ back)))[front.length]? = some entry := by simp
    have hremaining : (entry :: low).length + high.length = low.length + high.length + 1 := by
      simp
      omega
    have hentries : front ++ (entry :: low ++ (high ++ back)) =
        front ++ [entry] ++ (low ++ (high ++ back)) := by simp
    have hrest := ih (front ++ [entry]) fun other hother =>
      hlow other (mem_cons_of_mem entry hother)
    rw [hremaining, seek, hread]
    simp only [bind_eq_bind, bind_some]
    rw [if_pos (hlow entry mem_cons_self), hentries]
    have hlength : front.length + 1 = (front ++ [entry]).length := by simp
    rw [hlength, hrest]
    congr 1
    omega

end

section

variable {T : Type} (ops : Operators T) (nEntries : Nat)

def occupied (block : Block T) : List T :=
  block.entries.take (nEntries - block.nFreeEntries)

/-- The block holds `items`, in order and followed by free entries, and counts the latter. -/
def Keeps (block : Block T) (items : List T) : Prop :=
  ∃ free, block.entries = items ++ free ∧ block.nFreeEntries = free.length ∧
    items.length + free.length = nEntries ∧
    items.Pairwise (fun entry later => ops.key entry < ops.key later) ∧
    (∀ entry ∈ items, ops.key entry ≠ 0) ∧ ∀ entry ∈ free, ops.key entry = 0

/-- The occupied entries are a sorted, zero-terminated part at the start of the block. -/
def WellFormed (block : Block T) : Prop :=
  Keeps ops nEntries block (occupied nEntries block)

variable {ops nEntries} {block : Block T} {items : List T} {item entry : T}

theorem Keeps.occupied_eq (h : Keeps ops nEntries block items) :
    occupied nEntries block = items := by
  obtain ⟨free, hentries, hcount, hlength, -⟩ := h
  have hitems : nEntries - block.nFreeEntries = items.length := by omega
  rw [occupied, hitems, hentries, take_left]

theorem Keeps.wellFormed (h : Keeps ops nEntries block items) : WellFormed ops nEntries block := by
  rw [WellFormed, h.occupied_eq]
  exact h

theorem getNewBlock_keeps {memory : List T} (h : memory.length = nEntries) :
    Keeps ops nEntries (getNewBlock ops nEntries memory) [] := by
  refine ⟨memory.map ops.clear, rfl, by simp [getNewBlock, h], by simp [h], .nil, by simp, ?_⟩
  intro entry hentry
  obtain ⟨garbage, -, rfl⟩ := mem_map.mp hentry
  exact ops.key_clear garbage

/-- The entries before the place of `item`. -/
def below (ops : Operators T) (item : T) (items : List T) : List T :=
  items.takeWhile fun entry => decide (ops.key entry < ops.key item)

def notBelow (ops : Operators T) (item : T) (items : List T) : List T :=
  items.dropWhile fun entry => decide (ops.key entry < ops.key item)

theorem below_append_notBelow (item : T) (items : List T) :
    below ops item items ++ notBelow ops item items = items :=
  takeWhile_append_dropWhile

theorem key_lt_of_mem_below (h : entry ∈ below ops item items) : ops.key entry < ops.key item := by
  simpa using mem_takeWhile_imp h

theorem le_key_of_mem_notBelow
    (hsorted : items.Pairwise fun entry later => ops.key entry < ops.key later)
    (h : entry ∈ notBelow ops item items) : ops.key item ≤ ops.key entry := by
  have hhead : ∀ first, (notBelow ops item items).head? = some first →
      ops.key item ≤ ops.key first := by
    intro first hfirst
    have hnot := head?_dropWhile_not (fun entry => decide (ops.key entry < ops.key item)) items
    rw [notBelow] at hfirst
    rw [hfirst] at hnot
    simpa using hnot
  have hsorted' : (notBelow ops item items).Pairwise fun entry later =>
      ops.key entry < ops.key later :=
    hsorted.sublist (dropWhile_sublist _)
  cases hlist : notBelow ops item items with
  | nil =>
    rw [hlist] at h
    cases h
  | cons first rest =>
    rw [hlist] at h hsorted' hhead
    have hfirst := hhead first rfl
    rcases mem_cons.mp h with rfl | hrest
    · exact hfirst
    · exact le_trans hfirst (le_of_lt (rel_of_pairwise_cons hsorted' hrest))

theorem findIdx?_of_append {p : T → Bool} {front back : List T}
    (hfront : ∀ other ∈ front, p other = false) (hentry : p entry = true) :
    (front ++ entry :: back).findIdx? p = some front.length := by
  have hnone : front.findIdx? p = none := findIdx?_eq_none_iff.mpr hfront
  simp [findIdx?_append, hnone, findIdx?_cons, hentry]

theorem findIdx_of_append {p : T → Bool} {front back : List T}
    (hfront : ∀ other ∈ front, p other = false) (hentry : p entry = true) :
    (front ++ entry :: back).findIdx p = front.length :=
  (findIdx?_eq_some_iff_findIdx_eq.mp (findIdx?_of_append hfront hentry)).2

theorem addToBlock_eq {low high : List T} {zero : T} (free : List T) (n : Nat)
    (hlow : ∀ entry ∈ low, ops.key entry ≠ 0 ∧ ops.key entry < ops.key item)
    (hhigh : ∀ entry ∈ high, ops.key entry ≠ 0 ∧ ops.key item ≤ ops.key entry)
    (hzero : ops.key zero = 0) : addToBlock ops ⟨n, low ++ (high ++ zero :: free)⟩ item =
      some ⟨n - 1, low ++ item :: (high ++ free)⟩ := by
  have hins : findInsertionEntry ops ⟨n, low ++ (high ++ zero :: free)⟩ item = low.length := by
    have hbefore : ∀ entry ∈ low,
        (decide (ops.key item ≤ ops.key entry) || decide (ops.key entry = 0)) = false := by
      intro entry hentry
      have := hlow entry hentry
      simp
      omega
    unfold findInsertionEntry
    cases high with
    | nil => rw [nil_append, findIdx?_of_append hbefore (by simp [hzero]), getD_some]
    | cons first high =>
      have hfirst := (hhigh first mem_cons_self).2
      rw [cons_append, findIdx?_of_append hbefore (by simp [hfirst]), getD_some]
  have hcopy : findCopyStart ops ⟨n, low ++ (high ++ zero :: free)⟩ low.length =
      low.length + high.length := by
    rw [findCopyStart, drop_left, findIdx_of_append _ (by simp [hzero])]
    intro entry hentry
    simp [(hhigh entry hentry).1]
  obtain ⟨first, hup⟩ := copyUp_spec low free high zero
  unfold addToBlock
  rw [hins]
  dsimp only
  rw [hcopy, Nat.add_sub_cancel_left, hup]
  simp

theorem addToBlock_keeps (h : Keeps ops nEntries block items) (hfree : 0 < block.nFreeEntries)
    (hitem : ops.key item ≠ 0) (hnew : ∀ entry ∈ items, ops.key entry ≠ ops.key item) :
    ∃ block' items', addToBlock ops block item = some block' ∧
      Keeps ops nEntries block' items' ∧ items'.Perm (item :: items) := by
  obtain ⟨free, hentries, hcount, hlength, hsorted, hnonzero, hzero⟩ := h
  obtain ⟨nFreeEntries, entries⟩ := block
  subst hentries hcount
  obtain ⟨zero, free, rfl⟩ := exists_cons_of_length_pos hfree
  have hitems : below ops item items ++ notBelow ops item items = items :=
    below_append_notBelow item items
  have hlow : ∀ entry ∈ below ops item items,
      ops.key entry ≠ 0 ∧ ops.key entry < ops.key item := by
    intro entry hentry
    refine ⟨hnonzero entry ?_, key_lt_of_mem_below hentry⟩
    rw [← hitems]
    exact mem_append_left _ hentry
  have hhigh : ∀ entry ∈ notBelow ops item items,
      ops.key entry ≠ 0 ∧ ops.key item < ops.key entry := by
    intro entry hentry
    have hmem : entry ∈ items := by
      rw [← hitems]
      exact mem_append_right _ hentry
    have hle := le_key_of_mem_notBelow hsorted hentry
    have hne := hnew entry hmem
    exact ⟨hnonzero entry hmem, by omega⟩
  have heq := addToBlock_eq free (zero :: free).length hlow
    (fun entry hentry => ⟨(hhigh entry hentry).1, le_of_lt (hhigh entry hentry).2⟩)
    (hzero zero mem_cons_self)
  generalize below ops item items = low at *
  generalize notBelow ops item items = high at *
  subst hitems
  refine ⟨_, low ++ item :: high, by simpa using heq,
    ⟨free, by simp, by simp, ?_, ?_, ?_, ?_⟩, perm_middle⟩
  · simp only [length_append, length_cons] at hlength ⊢
    omega
  · rw [pairwise_append] at hsorted ⊢
    refine ⟨hsorted.1, pairwise_cons.mpr ⟨fun entry hentry => (hhigh entry hentry).2,
      hsorted.2.1⟩, ?_⟩
    intro entry hentry later hlater
    rcases mem_cons.mp hlater with rfl | hlater
    · exact (hlow entry hentry).2
    · exact hsorted.2.2 entry hentry later hlater
  · intro entry hentry
    rcases mem_append.mp hentry with hentry | hentry
    · exact (hlow entry hentry).1
    · rcases mem_cons.mp hentry with rfl | hentry
      · exact hitem
      · exact (hhigh entry hentry).1
  · intro entry hentry
    exact hzero entry (mem_cons_of_mem zero hentry)

theorem removeFromBlock_keeps {low high : List T}
    (h : Keeps ops nEntries block (low ++ entry :: high)) :
    ∃ block', removeFromBlock ops nEntries block low.length = some block' ∧
      Keeps ops nEntries block' (low ++ high) := by
  obtain ⟨free, hentries, hcount, hlength, hsorted, hnonzero, hzero⟩ := h
  obtain ⟨nFreeEntries, entries⟩ := block
  subst hentries hcount
  obtain ⟨last, hdown⟩ := copyDown_spec low free high entry
  have hoccupied : nEntries - free.length - 1 = low.length + high.length := by
    simp only [length_append, length_cons] at hlength
    omega
  have hread : (low ++ (high ++ last :: free))[low.length + high.length]? = some last := by simp
  have hset : (low ++ (high ++ last :: free)).set (low.length + high.length) (ops.clear last) =
      low ++ high ++ ops.clear last :: free := by
    simp
  refine ⟨⟨free.length + 1, low ++ high ++ ops.clear last :: free⟩, ?_,
    ops.clear last :: free, rfl, rfl, ?_, ?_, ?_, ?_⟩
  · unfold removeFromBlock
    dsimp only
    rw [hoccupied, Nat.add_sub_cancel_left]
    have hblock : low ++ entry :: high ++ free = low ++ entry :: (high ++ free) := by simp
    rw [hblock, hdown]
    simp only [bind_eq_bind, bind_some]
    rw [hread]
    simp only [bind_some]
    rw [hset]
  · simp only [length_append, length_cons] at hlength ⊢
    omega
  · exact hsorted.sublist (List.Sublist.append_left (sublist_cons_self entry high) low)
  · intro other hother
    refine hnonzero other ?_
    rcases mem_append.mp hother with hmem | hmem
    · exact mem_append_left _ hmem
    · exact mem_append_right _ (mem_cons_of_mem entry hmem)
  · intro other hother
    rcases mem_cons.mp hother with rfl | hmem
    · exact ops.key_clear last
    · exact hzero other hmem

theorem findInBlock_eq {free : List T} (item : T)
    (hsorted : items.Pairwise fun entry later => ops.key entry < ops.key later)
    (hnonzero : ∀ entry ∈ items, ops.key entry ≠ 0) (hzero : ∀ entry ∈ free, ops.key entry = 0) :
    findInBlock ops item (items ++ free) =
      items.find? fun entry => decide (ops.key entry = ops.key item) := by
  induction items with
  | nil =>
    cases free with
    | nil => rfl
    | cons zero free =>
      have hkey := hzero zero mem_cons_self
      simp [findInBlock, hkey]
  | cons entry items ih =>
    rw [pairwise_cons] at hsorted
    have hrest := ih hsorted.2 fun other hother => hnonzero other (mem_cons_of_mem entry hother)
    have hkey := hnonzero entry mem_cons_self
    rw [cons_append, findInBlock, find?_cons]
    rcases lt_trichotomy (ops.key entry) (ops.key item) with hlt | heq | hgt
    · rw [if_pos ⟨hkey, le_of_lt hlt⟩, if_neg (ne_of_lt hlt), hrest]
      simp [ne_of_lt hlt]
    · rw [if_pos ⟨hkey, le_of_eq heq⟩, if_pos heq]
      simp [heq]
    have hnone : items.find? (fun entry => decide (ops.key entry = ops.key item)) = none := by
      rw [find?_eq_none]
      intro later hlater
      have := hsorted.1 later hlater
      simp
      omega
    rw [if_neg (by omega), hnone]
    simp [ne_of_gt hgt]

end

section

variable {T : Type} (ops : Operators T) (nEntries : Nat)

def contents (blocks : List (Block T)) : List T :=
  blocks.flatMap (occupied nEntries)

/-- The search for the deletion of `item` stays within the blocks: none of those that come
before the one with the item is full of smaller entries. -/
def Bounded (item : T) : List (Block T) → Prop
  | [] => True
  | current :: rest =>
    (∃ entry ∈ current.entries, ops.key entry ≠ 0 ∧ ops.key entry = ops.key item) ∨
      (current.nFreeEntries = 0 → ∃ entry ∈ current.entries, ops.key item < ops.key entry) ∧
        Bounded item rest

instance decidableBounded (item : T) : (blocks : List (Block T)) →
    Decidable (Bounded ops item blocks)
  | [] => inferInstanceAs (Decidable True)
  | current :: rest =>
    have := decidableBounded item rest
    inferInstanceAs (Decidable (_ ∨ (_ → _) ∧ _))

variable {ops nEntries} {blocks : List (Block T)} {block : Block T} {item : T}

theorem find_eq (h : ∀ block ∈ blocks, WellFormed ops nEntries block) (item : T) :
    find ops blocks item =
      (contents nEntries blocks).find? fun entry => decide (ops.key entry = ops.key item) := by
  induction blocks with
  | nil => rfl
  | cons block rest ih =>
    have hrest := ih fun other hother => h other (mem_cons_of_mem block hother)
    obtain ⟨free, hentries, -, -, hsorted, hnonzero, hzero⟩ := h block mem_cons_self
    have hblock := findInBlock_eq item hsorted hnonzero hzero
    rw [← hentries] at hblock
    have hcontents : contents nEntries (block :: rest) =
        occupied nEntries block ++ contents nEntries rest := flatMap_cons
    rw [find, findSome?_cons, hblock, hcontents, find?_append, ← hrest]
    cases (occupied nEntries block).find? fun entry => decide (ops.key entry = ops.key item) with
    | none => rfl
    | some entry => rfl

theorem exists_split {index : Nat} (h : blocks[index]? = some block) :
    ∃ front back, blocks = front ++ block :: back ∧
      ∀ block', blocks.set index block' = front ++ block' :: back := by
  obtain ⟨hlt, rfl⟩ := List.getElem?_eq_some_iff.mp h
  refine ⟨blocks.take index, blocks.drop (index + 1), ?_, ?_⟩
  · rw [List.getElem_cons_drop, List.take_append_drop]
  · intro block'
    rw [List.set_eq_take_append_cons_drop, if_pos hlt]

theorem wellFormed_exchange {front back : List (Block T)} {block' : Block T}
    (h : ∀ b ∈ front ++ block :: back, WellFormed ops nEntries b)
    (hblock' : WellFormed ops nEntries block') :
    ∀ b ∈ front ++ block' :: back, WellFormed ops nEntries b := by
  intro b hb
  rcases mem_append.mp hb with hb | hb
  · exact h b (mem_append_left _ hb)
  · rcases mem_cons.mp hb with rfl | hb
    · exact hblock'
    · exact h b (mem_append_right _ (mem_cons_of_mem block hb))

theorem contents_append_cons (front back : List (Block T)) (block : Block T) :
    contents nEntries (front ++ block :: back) =
      contents nEntries front ++ (occupied nEntries block ++ contents nEntries back) := by
  simp [contents]

theorem addEntry_spec (h : ∀ block ∈ blocks, WellFormed ops nEntries block) (hpos : 0 < nEntries)
    (hitem : ops.key item ≠ 0)
    (hnew : ∀ entry ∈ contents nEntries blocks, ops.key entry ≠ ops.key item)
    {memory : Option (List T)} (hmemory : ∀ page ∈ memory, page.length = nEntries) :
    (∃ blocks', addEntry ops nEntries blocks item memory = some (true, blocks') ∧
      (∀ block ∈ blocks', WellFormed ops nEntries block) ∧
      (contents nEntries blocks').Perm (item :: contents nEntries blocks)) ∨
    addEntry ops nEntries blocks item memory = some (false, blocks) ∧ memory = none := by
  unfold addEntry
  cases hfind : findInsertionBlock blocks with
  | some index =>
    obtain ⟨hlt, hfree, -⟩ := findIdx?_eq_some_iff_getElem.mp hfind
    have hread : blocks[index]? = some blocks[index] := getElem?_eq_getElem hlt
    generalize blocks[index] = block at hread hfree
    obtain ⟨front, back, rfl, hset⟩ := exists_split hread
    have hblock : WellFormed ops nEntries block := h block (by simp)
    obtain ⟨block', items', hadd, hkeeps, hperm⟩ :=
      addToBlock_keeps hblock (of_decide_eq_true hfree) hitem
        fun entry hentry => hnew entry (by simp [contents_append_cons, hentry])
    refine .inl ⟨front ++ block' :: back, ?_, wellFormed_exchange h hkeeps.wellFormed, ?_⟩
    · simp [hread, hadd, hset]
    · rw [contents_append_cons, contents_append_cons, hkeeps.occupied_eq]
      have hblock' : (contents nEntries front ++ (items' ++ contents nEntries back)).Perm
          (contents nEntries front ++
            (item :: occupied nEntries block ++ contents nEntries back)) :=
        (hperm.append_right _).append_left _
      exact hblock'.trans perm_middle
  | none =>
    cases memory with
    | none => exact .inr ⟨rfl, rfl⟩
    | some page =>
      have hpage : Keeps ops nEntries (getNewBlock ops nEntries page) [] :=
        getNewBlock_keeps (hmemory page rfl)
      obtain ⟨block', items', hadd, hkeeps, hperm⟩ :=
        addToBlock_keeps hpage hpos hitem (by simp)
      refine .inl ⟨block' :: blocks, by simp [hadd], ?_, ?_⟩
      · intro block hblock
        rcases mem_cons.mp hblock with rfl | hblock
        · exact hkeeps.wellFormed
        · exact h block hblock
      · have hcontents : contents nEntries (block' :: blocks) =
            occupied nEntries block' ++ contents nEntries blocks := flatMap_cons
        rw [hcontents, hkeeps.occupied_eq]
        exact hperm.append_right _

inductive Finds (ops : Operators T) (nEntries : Nat) (item : T) (blocks : List (Block T)) :
    Option (Nat × Nat) → Prop
  | found {index : Nat} {block : Block T} {low high : List T} {entry : T} :
      blocks[index]? = some block → occupied nEntries block = low ++ entry :: high →
        ops.key entry = ops.key item → Finds ops nEntries item blocks (some (index, low.length))
  | absent : (∀ entry ∈ contents nEntries blocks, ops.key entry ≠ ops.key item) →
      Finds ops nEntries item blocks none

theorem seek_block (h : WellFormed ops nEntries block)
    (hfull : block.nFreeEntries = 0 → ∃ entry ∈ block.entries, ops.key item ≤ ops.key entry) :
    ∃ i entry, seek ops block.entries item (nEntries - block.nFreeEntries) 0 = some i ∧
      block.entries[i]? = some entry ∧ ((ops.key entry ≠ 0 ∧ ops.key entry = ops.key item ∧
          ∃ low high, i = low.length ∧ occupied nEntries block = low ++ entry :: high) ∨
        ¬ (ops.key entry ≠ 0 ∧ ops.key entry = ops.key item) ∧
          ∀ other ∈ occupied nEntries block, ops.key other ≠ ops.key item) := by
  obtain ⟨free, hentries, hcount, hlength, hsorted, hnonzero, hzero⟩ := h
  generalize occupied nEntries block = items at *
  have hitems : below ops item items ++ notBelow ops item items = items :=
    below_append_notBelow item items
  have hhigh : ∀ entry ∈ notBelow ops item items, ops.key item ≤ ops.key entry :=
    fun entry hentry => le_key_of_mem_notBelow hsorted hentry
  have hlow : ∀ entry ∈ below ops item items, ops.key entry < ops.key item :=
    fun entry hentry => key_lt_of_mem_below hentry
  generalize below ops item items = low at *
  generalize notBelow ops item items = high at *
  subst hitems
  have hoccupied : nEntries - block.nFreeEntries = low.length + high.length := by
    rw [length_append] at hlength
    omega
  have hseek : seek ops block.entries item (nEntries - block.nFreeEntries) 0 =
      some low.length := by
    rw [hoccupied, hentries, append_assoc]
    have hspec := seek_spec ops [] low high free item
      (fun entry hentry => ⟨hnonzero entry (mem_append_left _ hentry), hlow entry hentry⟩) ?_
    · simpa using hspec
    · intro entry hentry
      have hle := hhigh entry (mem_of_mem_head? hentry)
      omega
  cases high with
  | cons entry high =>
    refine ⟨low.length, entry, hseek, by rw [hentries]; simp, ?_⟩
    rcases eq_or_ne (ops.key entry) (ops.key item) with heq | hne
    · exact .inl ⟨hnonzero entry (by simp), heq, low, high, rfl, rfl⟩
    refine .inr ⟨fun hfound => hne hfound.2, ?_⟩
    intro other hother
    rcases mem_append.mp hother with hmem | hmem
    · exact ne_of_lt (hlow other hmem)
    have hfirst := hhigh entry mem_cons_self
    rcases mem_cons.mp hmem with rfl | hmem
    · exact hne
    · have hlater := rel_of_pairwise_cons (pairwise_append.mp hsorted).2.1 hmem
      omega
  | nil =>
    have habsent : ∀ other ∈ low ++ [], ops.key other ≠ ops.key item := by
      intro other hother
      exact ne_of_lt (hlow other (by simpa using hother))
    cases free with
    | cons zero free =>
      refine ⟨low.length, zero, hseek, by rw [hentries]; simp, .inr ⟨?_, habsent⟩⟩
      intro hfound
      exact hfound.1 (hzero zero mem_cons_self)
    | nil =>
      -- A full block, and all its entries are smaller.
      obtain ⟨entry, hentry, hle⟩ := hfull hcount
      rw [hentries] at hentry
      have hlt := hlow entry (by simpa using hentry)
      omega

theorem findDeletionEntry_finds (h : ∀ block ∈ blocks, WellFormed ops nEntries block)
    (hbounded : Bounded ops item blocks) (start : Nat) :
    ∃ found, findDeletionEntry ops nEntries item blocks start =
        some (found.map fun place => (start + place.1, place.2)) ∧
      Finds ops nEntries item blocks found := by
  induction blocks generalizing start with
  | nil => exact ⟨none, rfl, .absent (by simp [contents])⟩
  | cons block rest ih =>
    have hfull : block.nFreeEntries = 0 →
        ∃ entry ∈ block.entries, ops.key item ≤ ops.key entry := by
      intro hzero
      rcases hbounded with ⟨entry, hentry, -, heq⟩ | ⟨hgreater, -⟩
      · exact ⟨entry, hentry, le_of_eq heq.symm⟩
      · obtain ⟨entry, hentry, hlt⟩ := hgreater hzero
        exact ⟨entry, hentry, le_of_lt hlt⟩
    obtain ⟨i, entry, hseek, hread, hcases⟩ := seek_block (h block mem_cons_self) hfull
    rw [findDeletionEntry, hseek]
    simp only [bind_eq_bind, bind_some, hread]
    rcases hcases with ⟨hkey, heq, low, high, rfl, hoccupied⟩ | ⟨hnot, habsent⟩
    · rw [if_pos ⟨hkey, heq⟩]
      have hindex : (block :: rest)[0]? = some block := rfl
      exact ⟨some (0, low.length), rfl, .found hindex hoccupied heq⟩
    rw [if_neg hnot]
    have hrest : Bounded ops item rest := by
      rcases hbounded with ⟨other, hother, hkey, heq⟩ | ⟨-, hrest⟩
      · -- Had the block the item, the search would have stopped there.
        obtain ⟨free, hentries, -, -, -, -, hzero⟩ := h block mem_cons_self
        rw [hentries] at hother
        rcases mem_append.mp hother with hmem | hmem
        · exact absurd heq (habsent other hmem)
        · exact absurd (hzero other hmem) hkey
      · exact hrest
    obtain ⟨found, hfound, hfinds⟩ :=
      ih (fun other hother => h other (mem_cons_of_mem block hother)) hrest (start + 1)
    refine ⟨found.map fun place => (place.1 + 1, place.2), ?_, ?_⟩
    · rw [hfound, Option.map_map]
      congr 2
      funext place
      simp only [Function.comp]
      congr 1
      omega
    · cases hfinds with
      | @found index other low high entry hindex hoccupied heq =>
        have hindex' : (block :: rest)[index + 1]? = some other := by simpa using hindex
        exact .found hindex' hoccupied heq
      | absent hnone =>
        refine .absent ?_
        intro other hother
        rcases mem_append.mp hother with hmem | hmem
        · exact habsent other hmem
        · exact hnone other hmem

theorem removeEntry_spec (h : ∀ block ∈ blocks, WellFormed ops nEntries block)
    (hbounded : Bounded ops item blocks) :
    ∃ blocks', removeEntry ops nEntries blocks item = some blocks' ∧
      (∀ block ∈ blocks', WellFormed ops nEntries block) ∧ ((∃ entry, ops.key entry = ops.key item ∧
          (contents nEntries blocks).Perm (entry :: contents nEntries blocks')) ∨
        blocks' = blocks ∧ ∀ entry ∈ contents nEntries blocks, ops.key entry ≠ ops.key item) := by
  obtain ⟨found, hfound, hfinds⟩ := findDeletionEntry_finds h hbounded 0
  unfold removeEntry
  rw [hfound]
  cases hfinds with
  | absent hnone => exact ⟨blocks, rfl, h, .inr ⟨rfl, hnone⟩⟩
  | @found index block low high entry hindex hoccupied heq =>
    obtain ⟨front, back, rfl, hset⟩ := exists_split hindex
    have hblock : Keeps ops nEntries block (low ++ entry :: high) := by
      rw [← hoccupied]
      exact h block (by simp)
    obtain ⟨block', hremove, hkeeps⟩ := removeFromBlock_keeps hblock
    refine ⟨front ++ block' :: back, ?_, wellFormed_exchange h hkeeps.wellFormed,
      .inl ⟨entry, heq, ?_⟩⟩
    · simp [hindex, hremove, hset]
    · rw [contents_append_cons, contents_append_cons, hkeeps.occupied_eq, hoccupied]
      have hmiddle : contents nEntries front ++ (low ++ entry :: high ++ contents nEntries back) =
          contents nEntries front ++ low ++ entry :: (high ++ contents nEntries back) := by
        simp
      have hrest : contents nEntries front ++ (low ++ high ++ contents nEntries back) =
          contents nEntries front ++ low ++ (high ++ contents nEntries back) := by
        simp
      rw [hmiddle, hrest]
      exact perm_middle

end

end Zambesii.EqualizerList
