import Hostcall.Proofs.Arena.Tiling

/-!
# The free blocks of a heap are its gaps

In a well-formed heap the live blocks decide everything else.

* `WellFormed.available_add_total`: what is not free is live. The bytes of blocks below an address
  are counted address by address (`Tiles.sizeBelow_eq`), so this needs no more than the tiling.
* `WellFormed.mem_free_iff`: the free blocks are the maximal gaps between the live ones. A gap
  cannot leave the free block that it starts in (`WellFormed.covers_of_isGap`), because the next
  address would belong to a free block that touches it.
* `WellFormed.free_eq`: heaps with the same live blocks have the same free blocks.
-/

namespace Hostcall.Heap

/-! ## Sizes -/

/-- The number of bytes of blocks. -/
def totalSize (blocks : List Block) : Nat := blocks.foldr (fun b total => b.size + total) 0

/-- The number of bytes of blocks below an address. -/
def sizeBelow (n : Nat) (blocks : List Block) : Nat :=
  blocks.foldr (fun b total => (min n b.finish - min n b.address) + total) 0

theorem sizeBelow_zero (blocks : List Block) : sizeBelow 0 blocks = 0 := by
  induction blocks with
  | nil => rfl
  | cons b blocks ih =>
    change _ + sizeBelow 0 blocks = 0
    rw [ih]
    omega

theorem sizeBelow_succ (n : Nat) (blocks : List Block) :
    sizeBelow (n + 1) blocks = sizeBelow n blocks + cover blocks n := by
  induction blocks with
  | nil => rfl
  | cons b blocks ih =>
    have hone : min (n + 1) b.finish - min (n + 1) b.address =
        (min n b.finish - min n b.address) + if b.covers n then 1 else 0 := by
      simp only [Block.covers_iff, Block.finish]
      split
      · omega
      · omega
    change _ + sizeBelow (n + 1) blocks = _ + sizeBelow n blocks + cover (b :: blocks) n
    rw [ih, hone, cover_cons]
    omega

section

variable {start finish : Nat} {h : Heap} {blocks : List Block}

/-- Below an address there are as many bytes of blocks as there are addresses to tile. -/
theorem Tiles.sizeBelow_eq (ht : Tiles start finish blocks) (n : Nat) :
    sizeBelow n blocks = min n finish - min n start := by
  induction n with
  | zero =>
    rw [sizeBelow_zero]
    omega
  | succ n ih =>
    rw [sizeBelow_succ, ih, ht n]
    split
    · omega
    · omega

theorem Tiles.inside (ht : Tiles start finish blocks) {b : Block} (hb : b ∈ blocks) {x : Nat}
    (hx : b.covers x) : start ≤ x ∧ x < finish := by
  have hpos := cover_pos_iff.mpr ⟨b, hb, hx⟩
  rw [ht x] at hpos
  split at hpos
  · assumption
  · omega

/-- A block that is not empty lies inside what is tiled. -/
theorem Tiles.bounds (ht : Tiles start finish blocks) {b : Block} (hb : b ∈ blocks)
    (hpos : 0 < b.size) : start ≤ b.address ∧ b.finish ≤ finish := by
  have hfirst := ht.inside hb (x := b.address) (by simp [Block.covers_iff, Block.finish, hpos])
  have hlast := ht.inside hb (x := b.finish - 1) (by
    simp only [Block.covers_iff, Block.finish]
    omega)
  simp only [Block.finish] at hlast ⊢
  omega

theorem sizeBelow_of_finish_le {n : Nat} (hle : ∀ b ∈ blocks, b.finish ≤ n) :
    sizeBelow n blocks = totalSize blocks := by
  induction blocks with
  | nil => rfl
  | cons b blocks ih =>
    obtain ⟨hb, hblocks⟩ := List.forall_mem_cons.mp hle
    change _ + sizeBelow n blocks = b.size + totalSize blocks
    rw [ih hblocks]
    simp only [Block.finish] at hb ⊢
    omega

theorem Tiles.totalSize_eq (ht : Tiles start finish blocks) (hpos : ∀ b ∈ blocks, 0 < b.size) :
    totalSize blocks = finish - start := by
  have hle : ∀ b ∈ blocks, b.finish ≤ max start finish := by
    intro b hb
    have hbounds := ht.bounds hb (hpos b hb)
    omega
  rw [← sizeBelow_of_finish_le hle, ht.sizeBelow_eq]
  omega

theorem totalSize_append (blocks more : List Block) :
    totalSize (blocks ++ more) = totalSize blocks + totalSize more := by
  induction blocks with
  | nil => simp [totalSize]
  | cons b blocks ih =>
    change b.size + totalSize (blocks ++ more) = b.size + totalSize blocks + totalSize more
    omega

theorem WellFormed.positive (hw : h.WellFormed start finish) : ∀ b ∈ h.free ++ h.live, 0 < b.size :=
  List.forall_mem_append.mpr ⟨hw.freePositive, hw.livePositive⟩

/-- What is not free is live. -/
theorem WellFormed.available_add_total (hw : h.WellFormed start finish) :
    h.available + totalSize h.live = finish - start := by
  have htotal := hw.tiles.totalSize_eq hw.positive
  rw [totalSize_append] at htotal
  exact htotal

end

/-! ## Gaps -/

/-- A run of addresses from `start` to `finish` of which none lies in a live block. -/
structure IsGap (start finish : Nat) (live : List Block) (g : Block) : Prop where
  positive : 0 < g.size
  le_address : start ≤ g.address
  finish_le : g.finish ≤ finish
  vacant : ∀ x, g.covers x → ¬∃ b ∈ live, b.covers x

/-- A gap that is no part of a longer one. -/
structure IsMaximalGap (start finish : Nat) (live : List Block) (g : Block) : Prop where
  gap : IsGap start finish live g
  maximal : ∀ g', IsGap start finish live g' → (∀ x, g.covers x → g'.covers x) → g' = g

section

variable {start finish : Nat} {h : Heap}

/-- An address of the heap is free if and only if it is not live. -/
theorem WellFormed.free_iff_not_live (hw : h.WellFormed start finish) {x : Nat} (hx : start ≤ x)
    (hx' : x < finish) : (∃ b ∈ h.free, b.covers x) ↔ ¬∃ b ∈ h.live, b.covers x := by
  have ht := hw.tiles x
  rw [if_pos ⟨hx, hx'⟩, cover_append] at ht
  rw [← cover_pos_iff, ← cover_pos_iff]
  omega

theorem WellFormed.isGap_of_mem_free (hw : h.WellFormed start finish) {b : Block}
    (hb : b ∈ h.free) : IsGap start finish h.live b := by
  have hmem : b ∈ h.free ++ h.live := List.mem_append_left _ hb
  have hpos := hw.freePositive b hb
  obtain ⟨hle, hfinish⟩ := hw.tiles.bounds hmem hpos
  refine ⟨hpos, hle, hfinish, fun x hx => ?_⟩
  obtain ⟨hx₁, hx₂⟩ := hw.tiles.inside hmem hx
  exact (hw.free_iff_not_live hx₁ hx₂).mp ⟨b, hb, hx⟩

/-- Of two blocks with the same addresses there is one. -/
theorem eq_of_covers_iff {b c : Block} (hb : 0 < b.size) (hc : 0 < c.size)
    (h : ∀ x, b.covers x ↔ c.covers x) : b = c := by
  obtain ⟨address, size⟩ := b
  obtain ⟨address', size'⟩ := c
  have hfirst := h address
  have hfirst' := h address'
  have hlast := h (address + size - 1)
  have hlast' := h (address' + size' - 1)
  simp only [Block.covers_iff, Block.finish] at hb hc hfirst hfirst' hlast hlast'
  have haddress : address = address' := by omega
  have hsize : size = size' := by omega
  rw [haddress, hsize]

theorem separate_of_mem {free : List Block} (hsep : free.Pairwise fun b c => b.finish < c.address)
    {b c : Block} (hb : b ∈ free) (hc : c ∈ free) :
    b = c ∨ b.finish < c.address ∨ c.finish < b.address := by
  induction free with
  | nil => cases hb
  | cons d rest ih =>
    obtain ⟨hd, hrest⟩ := List.pairwise_cons.mp hsep
    rcases List.mem_cons.mp hb with hbd | hb'
    · rcases List.mem_cons.mp hc with hcd | hc'
      · exact .inl (hbd.trans hcd.symm)
      · rw [hbd]
        exact .inr (.inl (hd c hc'))
    · rcases List.mem_cons.mp hc with hcd | hc'
      · rw [hcd]
        exact .inr (.inr (hd b hb'))
      · exact ih hrest hb' hc'

/-- Free blocks with the same address, or with addresses side by side, are one block. -/
theorem WellFormed.eq_of_covers (hw : h.WellFormed start finish) {b c : Block} {x y : Nat}
    (hb : b ∈ h.free) (hc : c ∈ h.free) (hbx : b.covers x) (hcy : c.covers y) (hxy : x ≤ y)
    (hyx : y ≤ x + 1) : b = c := by
  refine (separate_of_mem hw.freeSeparate hb hc).resolve_right ?_
  simp only [Block.covers_iff] at hbx hcy
  omega

/-- A gap does not reach beyond the free block that it starts in. -/
theorem WellFormed.covers_of_isGap (hw : h.WellFormed start finish) {g b : Block}
    (hg : IsGap start finish h.live g) (hb : b ∈ h.free) (hstart : b.covers g.address) {x : Nat}
    (hx : g.covers x) : b.covers x := by
  obtain ⟨k, rfl⟩ := Nat.exists_eq_add_of_le (Block.covers_iff.mp hx).1
  induction k with
  | zero => exact hstart
  | succ k ih =>
    have hk : g.covers (g.address + k) := by
      simp only [Block.covers_iff] at hx ⊢
      omega
    have hbounds := Block.covers_iff.mp hx
    have hle := hg.le_address
    have hfinish := hg.finish_le
    obtain ⟨c, hc, hcx⟩ := (hw.free_iff_not_live (by omega) (by omega)).mpr (hg.vacant _ hx)
    rw [hw.eq_of_covers hb hc (ih hk) hcx (by omega) (by omega)]
    exact hcx

theorem IsGap.covers_address {live : List Block} {g : Block} (hg : IsGap start finish live g) :
    g.covers g.address := by
  have hpos := hg.positive
  simp only [Block.covers_iff, Block.finish]
  omega

/-- Every gap starts in a free block. -/
theorem WellFormed.exists_free_of_isGap (hw : h.WellFormed start finish) {g : Block}
    (hg : IsGap start finish h.live g) : ∃ b ∈ h.free, b.covers g.address := by
  have hbounds := Block.covers_iff.mp hg.covers_address
  have hfinish := hg.finish_le
  exact (hw.free_iff_not_live hg.le_address (by omega)).mpr (hg.vacant _ hg.covers_address)

/-- The free blocks are the maximal gaps between the live ones. -/
theorem WellFormed.mem_free_iff (hw : h.WellFormed start finish) {b : Block} :
    b ∈ h.free ↔ IsMaximalGap start finish h.live b := by
  constructor
  · intro hb
    have hgap := hw.isGap_of_mem_free hb
    refine ⟨hgap, fun g hg hsub => ?_⟩
    obtain ⟨c, hc, hcg⟩ := hw.exists_free_of_isGap hg
    have hcb : c.covers b.address := hw.covers_of_isGap hg hc hcg (hsub _ hgap.covers_address)
    have heq : b = c :=
      hw.eq_of_covers hb hc hgap.covers_address hcb (Nat.le_refl _) (Nat.le_succ _)
    subst heq
    refine eq_of_covers_iff hg.positive hgap.positive fun x => ⟨?_, hsub x⟩
    exact hw.covers_of_isGap hg hb hcg
  · rintro ⟨hgap, hmax⟩
    obtain ⟨c, hc, hcb⟩ := hw.exists_free_of_isGap hgap
    rw [← hmax c (hw.isGap_of_mem_free hc) fun x hx => hw.covers_of_isGap hgap hc hcb hx]
    exact hc

theorem nodup_of_separate {free : List Block}
    (hsep : free.Pairwise fun b c => b.finish < c.address) : free.Nodup := by
  refine hsep.imp fun {b c} hlt heq => ?_
  subst heq
  simp only [Block.finish] at hlt
  omega

/-- The live blocks decide what the free ones are. -/
theorem WellFormed.free_eq {h' : Heap} (hw : h.WellFormed start finish)
    (hw' : h'.WellFormed start finish) (hlive : h'.live = h.live) : h'.free = h.free := by
  have hperm : h'.free.Perm h.free := by
    refine (List.perm_ext_iff_of_nodup (nodup_of_separate hw'.freeSeparate)
      (nodup_of_separate hw.freeSeparate)).mpr fun b => ?_
    rw [hw'.mem_free_iff, hw.mem_free_iff, hlive]
  refine hperm.eq_of_pairwise ?_ hw'.freeSeparate hw.freeSeparate
  intro b c _ _ hbc hcb
  simp only [Block.finish] at hbc hcb
  omega

end

end Hostcall.Heap
