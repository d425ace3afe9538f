import Zambesii.PmemInit

/-!
`init2_generateShbankFromNumaMap` for a map that is in order: the ranges it adds to the shared
bank against the gaps between the entries of the map.
-/

namespace Zambesii.ShbankHoles

open KernelTypes List Nat PmemInit

/-- The gaps between consecutive entries, as far as they lie below `memSize`. -/
def gaps (memSize : Nat) : List NumaMemoryMapEntry → List (Nat × Nat)
  | entry :: next :: map =>
    let first := entry.baseAddr + entry.size
    let beyond := min next.baseAddr memSize
    (if first < beyond then [(first, beyond - first)] else []) ++ gaps memSize (next :: map)
  | _ => []

def InOrder (map : List NumaMemoryMapEntry) : Prop :=
  map.Pairwise fun entry later => entry.baseAddr + entry.size ≤ later.baseAddr

def addHole (allocs : Nat → Bool) (progress : Progress) (hole : Nat × Nat) : Progress :=
  addMemoryRange allocs progress shbankId hole.1 hole.2

/-- The ranges that are added are the gaps, whatever the state they are added in; none of them
overlaps an entry or another one. -/
structure AddsGaps (memSize : Nat) (map : List NumaMemoryMapEntry) : Prop where
  exact : ∀ allocs progress, generateShbankFromNumaMap allocs memSize map progress =
    (gaps memSize map).foldl (addHole allocs) progress
  entries : ∀ gap ∈ gaps memSize map, 0 < gap.2 ∧ gap.1 + gap.2 ≤ memSize ∧ ∀ entry ∈ map,
    gap.1 + gap.2 ≤ entry.baseAddr ∨ entry.baseAddr + entry.size ≤ gap.1
  others : (gaps memSize map).Pairwise fun gap later => gap.1 + gap.2 ≤ later.1

/-- No entry but the last begins at or below `memSize` and ends above it, and where an empty entry
has the base of the next one there are no more gaps; what begins above `memSize` is not looked
at. -/
def Clear (memSize : Nat) : List NumaMemoryMapEntry → Prop
  | entry :: next :: map =>
    memSize < entry.baseAddr ∨
      entry.baseAddr = next.baseAddr ∧ gaps memSize (next :: map) = [] ∨
      entry.baseAddr ≠ next.baseAddr ∧ entry.baseAddr + entry.size ≤ memSize ∧
        Clear memSize (next :: map)
  | _ => True

section

variable {memSize : Nat} {map : List NumaMemoryMapEntry}

def shbankHoles (memSize : Nat) : List NumaMemoryMapEntry → List (Nat × Nat)
  | entry :: next :: map =>
    if memSize < entry.baseAddr then []
    else if entry.baseAddr = next.baseAddr then []
    else
      let tmpBase := (entry.baseAddr + entry.size) % wordModulus
      let tmpSize := (next.baseAddr + (wordModulus - tmpBase)) % wordModulus
      let endAddr := (tmpBase + tmpSize) % wordModulus
      let tmpSize :=
        if memSize < endAddr then (memSize + (wordModulus - tmpBase)) % wordModulus else tmpSize
      if next.baseAddr < tmpBase then []
      else (if 0 < tmpSize then [(tmpBase, tmpSize)] else []) ++ shbankHoles memSize (next :: map)
  | _ => []

theorem generateShbankFromNumaMap_eq (allocs : Nat → Bool) (memSize : Nat)
    (map : List NumaMemoryMapEntry) (progress : Progress) :
    generateShbankFromNumaMap allocs memSize map progress =
      (shbankHoles memSize map).foldl (addHole allocs) progress := by
  induction map generalizing progress with
  | nil => rfl
  | cons entry map ih =>
    cases map with
    | nil => rfl
    | cons next map =>
      rw [generateShbankFromNumaMap, shbankHoles]
      split
      · rfl
      split
      · rfl
      dsimp only
      generalize hsize : (if memSize < _ then _ else _) = tmpSize
      split
      · rfl
      · rw [ih]
        split
        · rfl
        · rfl

theorem nAllocs_addHole (allocs : Nat → Bool) (progress : Progress) (hole : Nat × Nat) :
    (addHole allocs progress hole).nAllocs = progress.nAllocs + 1 := by
  rw [addHole, addMemoryRange]
  split
  · split
    · rfl
    · split <;> rfl
  · rfl

theorem nAllocs_foldl (allocs : Nat → Bool) (progress : Progress) (holes : List (Nat × Nat)) :
    (holes.foldl (addHole allocs) progress).nAllocs = progress.nAllocs + holes.length := by
  induction holes generalizing progress with
  | nil => rfl
  | cons hole holes ih =>
    rw [foldl_cons, ih, nAllocs_addHole, length_cons]
    omega

theorem shbankHoles_cons {entry next : NumaMemoryMapEntry}
    (hle : entry.baseAddr + entry.size ≤ next.baseAddr) (hbelow : ¬memSize < entry.baseAddr)
    (hne : entry.baseAddr ≠ next.baseAddr) :
    shbankHoles memSize (entry :: next :: map) =
      (if memSize < entry.baseAddr + entry.size then
        [(entry.baseAddr + entry.size, memSize + (wordModulus - (entry.baseAddr + entry.size)))]
      else if entry.baseAddr + entry.size < min next.baseAddr memSize then
        [(entry.baseAddr + entry.size, min next.baseAddr memSize - (entry.baseAddr + entry.size))]
      else []) ++ shbankHoles memSize (next :: map) := by
  have hnext := next.baseAddr_lt
  have hbase : (entry.baseAddr + entry.size) % wordModulus = entry.baseAddr + entry.size :=
    mod_eq_of_lt (by omega)
  have hsize : (next.baseAddr + (wordModulus - (entry.baseAddr + entry.size))) % wordModulus =
      next.baseAddr - (entry.baseAddr + entry.size) := by
    rw [show next.baseAddr + (wordModulus - (entry.baseAddr + entry.size)) =
      next.baseAddr - (entry.baseAddr + entry.size) + wordModulus by omega, add_mod_right]
    exact mod_eq_of_lt (by omega)
  have hend : (entry.baseAddr + entry.size +
      (next.baseAddr - (entry.baseAddr + entry.size))) % wordModulus = next.baseAddr := by
    rw [Nat.add_sub_cancel' hle]
    exact mod_eq_of_lt hnext
  rw [shbankHoles, if_neg hbelow, if_neg hne]
  dsimp only
  rw [hbase, hsize, hend, if_neg (by omega)]
  congr 1
  rcases lt_or_ge memSize (entry.baseAddr + entry.size) with hwrap | hfits
  · rw [if_pos (show memSize < next.baseAddr by omega), if_pos hwrap]
    rw [mod_eq_of_lt (by omega), if_pos (by omega)]
  rw [if_neg (show ¬memSize < entry.baseAddr + entry.size by omega)]
  have hclip : (if memSize < next.baseAddr then
      (memSize + (wordModulus - (entry.baseAddr + entry.size))) % wordModulus
      else next.baseAddr - (entry.baseAddr + entry.size)) =
      min next.baseAddr memSize - (entry.baseAddr + entry.size) := by
    split
    · rw [show memSize + (wordModulus - (entry.baseAddr + entry.size)) =
        memSize - (entry.baseAddr + entry.size) + wordModulus by omega, add_mod_right,
        mod_eq_of_lt (by omega)]
      omega
    · omega
  rw [hclip]
  split
  · rw [if_pos (by omega)]
  · rw [if_neg (by omega)]

theorem gaps_of_lt {entry : NumaMemoryMapEntry} (h : InOrder (entry :: map))
    (hlt : memSize < entry.baseAddr) : gaps memSize (entry :: map) = [] := by
  induction map generalizing entry with
  | nil => rfl
  | cons next map ih =>
    obtain ⟨hentry, hrest⟩ := pairwise_cons.mp h
    have hle := hentry next mem_cons_self
    rw [gaps]
    rw [if_neg (by omega), nil_append, ih hrest (by omega)]

theorem shbankHoles_of_lt {entry : NumaMemoryMapEntry} (hlt : memSize < entry.baseAddr) :
    shbankHoles memSize (entry :: map) = [] := by
  cases map with
  | nil => rfl
  | cons next map => rw [shbankHoles, if_pos hlt]

theorem shbankHoles_cases (h : InOrder map) :
    (Clear memSize map → shbankHoles memSize map = gaps memSize map) ∧
      (¬Clear memSize map → (shbankHoles memSize map).length ≠ (gaps memSize map).length) := by
  induction map with
  | nil => exact ⟨fun _ => rfl, fun hnot => absurd trivial hnot⟩
  | cons entry map ih =>
    cases map with
    | nil => exact ⟨fun _ => rfl, fun hnot => absurd trivial hnot⟩
    | cons next map =>
      obtain ⟨hentry, hrest⟩ := pairwise_cons.mp h
      have hle := hentry next mem_cons_self
      obtain ⟨hclear, hnotClear⟩ := ih hrest
      rcases lt_or_ge memSize entry.baseAddr with habove | hbelow
      · rw [shbankHoles_of_lt habove, gaps_of_lt h habove]
        exact ⟨fun _ => rfl, fun hnot => absurd (.inl habove) hnot⟩
      rcases eq_or_ne entry.baseAddr next.baseAddr with heq | hne
      · have hholes : shbankHoles memSize (entry :: next :: map) = [] := by
          rw [shbankHoles, if_neg (by omega), if_pos heq]
        have hgaps : gaps memSize (entry :: next :: map) = gaps memSize (next :: map) := by
          rw [gaps]
          rw [if_neg (by omega), nil_append]
        rw [hholes, hgaps]
        constructor
        · rintro (habove | ⟨-, hnone⟩ | ⟨hne, -⟩)
          · omega
          · exact hnone.symm
          · exact absurd heq hne
        · intro hnot hlength
          have hnone := eq_nil_of_length_eq_zero hlength.symm
          exact hnot (.inr (.inl ⟨heq, hnone⟩))
      rw [shbankHoles_cons hle (by omega) hne, gaps]
      rcases lt_or_ge memSize (entry.baseAddr + entry.size) with hwrap | hfits
      · -- the size wraps: one range is asked for and there is no gap
        rw [if_pos hwrap, shbankHoles_of_lt (show memSize < next.baseAddr by omega),
          gaps_of_lt hrest (by omega), if_neg (by omega)]
        constructor
        · rintro (habove | ⟨heq, -⟩ | ⟨-, hfits, -⟩)
          · omega
          · exact absurd heq hne
          · omega
        · intro _
          exact one_ne_zero
      rw [if_neg (show ¬memSize < entry.baseAddr + entry.size by omega)]
      constructor
      · rintro (habove | ⟨heq, -⟩ | ⟨-, -, hlater⟩)
        · omega
        · exact absurd heq hne
        · rw [hclear hlater]
      · intro hnot hlength
        rw [length_append, length_append] at hlength
        refine hnotClear (fun hlater => hnot (.inr (.inr ⟨hne, hfits, hlater⟩))) ?_
        omega

end

section

variable {memSize : Nat} {map : List NumaMemoryMapEntry}

theorem mem_gaps {entry : NumaMemoryMapEntry} (h : InOrder (entry :: map)) {gap : Nat × Nat}
    (hgap : gap ∈ gaps memSize (entry :: map)) :
    0 < gap.2 ∧ gap.1 + gap.2 ≤ memSize ∧ entry.baseAddr + entry.size ≤ gap.1 ∧
      ∀ other ∈ map, gap.1 + gap.2 ≤ other.baseAddr ∨ other.baseAddr + other.size ≤ gap.1 := by
  induction map generalizing entry with
  | nil => cases hgap
  | cons next map ih =>
    obtain ⟨hentry, hrest⟩ := pairwise_cons.mp h
    have hle := hentry next mem_cons_self
    rcases mem_append.mp hgap with hhere | hlater
    · split at hhere
      · rename_i hlt
        obtain rfl := mem_singleton.mp hhere
        refine ⟨by omega, by omega, le_refl _, ?_⟩
        intro other hother
        rcases mem_cons.mp hother with rfl | hother
        · exact .inl (by omega)
        · have hafter := (pairwise_cons.mp hrest).1 other hother
          exact .inl (by omega)
      · cases hhere
    · obtain ⟨hpos, hmem, hfirst, hothers⟩ := ih hrest hlater
      refine ⟨hpos, hmem, by omega, ?_⟩
      intro other hother
      rcases mem_cons.mp hother with rfl | hother
      · exact .inr hfirst
      · exact hothers other hother

theorem gaps_pairwise (h : InOrder map) :
    (gaps memSize map).Pairwise fun gap later => gap.1 + gap.2 ≤ later.1 := by
  induction map with
  | nil => exact .nil
  | cons entry map ih =>
    cases map with
    | nil => exact .nil
    | cons next map =>
      obtain ⟨hentry, hrest⟩ := pairwise_cons.mp h
      rw [gaps]
      split
      · rename_i hlt
        refine pairwise_cons.mpr ⟨?_, ih hrest⟩
        intro later hlater
        have hfirst := (mem_gaps hrest hlater).2.2.1
        omega
      · exact ih hrest

/-- The gaps of an ordered map are added exactly when the map is clear. -/
theorem addsGaps_iff_clear (memSize : Nat) (first second : NumaMemoryMapEntry)
    (rest : List NumaMemoryMapEntry) (h : InOrder (first :: second :: rest)) :
    AddsGaps memSize (first :: second :: rest) ↔ Clear memSize (first :: second :: rest) := by
  obtain ⟨hclear, hnotClear⟩ := @shbankHoles_cases memSize _ h
  constructor
  · intro hadds
    refine Classical.byContradiction fun hnot => hnotClear hnot ?_
    have hexact := congrArg Progress.nAllocs (hadds.exact (fun _ => true) ⟨[], false, 0⟩)
    rw [generateShbankFromNumaMap_eq, nAllocs_foldl, nAllocs_foldl] at hexact
    exact add_left_cancel hexact
  · intro hmap
    refine ⟨?_, ?_, gaps_pairwise h⟩
    · intro allocs progress
      rw [generateShbankFromNumaMap_eq, hclear hmap]
    · intro gap hgap
      obtain ⟨hpos, hmem, hfirst, hothers⟩ := mem_gaps h hgap
      refine ⟨hpos, hmem, ?_⟩
      intro other hother
      rcases mem_cons.mp hother with rfl | hother
      · exact .inr hfirst
      · exact hothers other hother

theorem eightFrames_lt : 8 * 4096 < wordModulus := by decide

theorem sixteenFrames_lt : 16 * 4096 < wordModulus := by decide

theorem gapBase_lt : 24 * 4096 < wordModulus := by decide

def lowEntry : NumaMemoryMapEntry := ⟨⟨0, 16 * 4096, wordModulus_pos, sixteenFrames_lt⟩, 0⟩

def highEntry : NumaMemoryMapEntry :=
  ⟨⟨24 * 4096, 8 * 4096, gapBase_lt, eightFrames_lt⟩, 1⟩

theorem addsGaps_iff_clear_lowEntry :
    AddsGaps (32 * 4096) [lowEntry, highEntry] ↔ Clear (32 * 4096) [lowEntry, highEntry] :=
  addsGaps_iff_clear (32 * 4096) lowEntry highEntry [] (by rw [InOrder]; decide)

theorem lowEntry_wraps : InOrder [lowEntry, highEntry] ∧
    ¬AddsGaps (8 * 4096) [lowEntry, highEntry] := by
  refine ⟨by rw [InOrder]; decide, ?_⟩
  intro h
  have hexact := congrArg Progress.nAllocs (h.exact (fun _ => true) ⟨[], false, 0⟩)
  exact absurd hexact (by decide +kernel)

end

end Zambesii.ShbankHoles
