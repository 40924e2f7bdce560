import Hostcall.Arena.Heap

/-!
# The blocks of a heap tile its addresses

`Tiles start finish blocks` says that each address from `start` to `finish` lies in exactly one of
the blocks and that no other address lies in any. It is a statement about the number of blocks that
cover an address, so it does not depend on their order, and cutting a block in two or joining two
that touch does not change it. `Heap.WellFormed` adds that the free blocks stand in ascending order
and apart from each other.

`wellFormed_init`, `wellFormed_alloc` and `wellFormed_release` say that the heaps that can come up
are well formed. For the free blocks the two inductions are those of `takeFirst` and `giveBack`:
first what is covered, then positive sizes, then that blocks stay apart.
-/

namespace Hostcall

/-- Whether an address lies in a block. -/
def Block.covers (b : Block) (address : Nat) : Bool :=
  b.address ≤ address ∧ address < b.finish

theorem Block.covers_iff {b : Block} {address : Nat} :
    b.covers address ↔ b.address ≤ address ∧ address < b.finish := by
  simp [covers]

/-- Two blocks have no address in common. -/
def Block.Apart (b c : Block) : Prop := b.finish ≤ c.address ∨ c.finish ≤ b.address

namespace Heap

/-! ## Covering -/

/-- The number of blocks that an address lies in. -/
def cover (blocks : List Block) (address : Nat) : Nat :=
  blocks.countP fun b => b.covers address

theorem cover_cons (b : Block) (blocks : List Block) (address : Nat) :
    cover (b :: blocks) address = cover blocks address + if b.covers address then 1 else 0 :=
  List.countP_cons

theorem cover_append (blocks more : List Block) (address : Nat) :
    cover (blocks ++ more) address = cover blocks address + cover more address :=
  List.countP_append

theorem cover_perm {blocks more : List Block} (h : blocks.Perm more) (address : Nat) :
    cover blocks address = cover more address :=
  h.countP_eq _

theorem cover_pos_iff {blocks : List Block} {address : Nat} :
    0 < cover blocks address ↔ ∃ b ∈ blocks, b.covers address :=
  List.countP_pos_iff

/-- A block that is cut in two covers the same addresses. -/
theorem cover_cut (address size rest : Nat) (blocks : List Block) (x : Nat) :
    cover (⟨address, size + rest⟩ :: blocks) x =
      cover (⟨address, size⟩ :: ⟨address + size, rest⟩ :: blocks) x := by
  simp only [cover_cons, Block.covers_iff, Block.finish]
  split
  · split
    · rw [if_neg (by omega)]
    · rw [if_pos (by omega)]
  · rw [if_neg (by omega), if_neg (by omega)]

/-- Each address from `start` to `finish` lies in exactly one block, and no other in any. -/
def Tiles (start finish : Nat) (blocks : List Block) : Prop :=
  ∀ address, cover blocks address = if start ≤ address ∧ address < finish then 1 else 0

/-- A heap of the addresses from `start` to `finish`. -/
structure WellFormed (start finish : Nat) (h : Heap) : Prop where
  /-- Free blocks stand in ascending order, and no two of them overlap or touch. -/
  freeSeparate : h.free.Pairwise fun b c => b.finish < c.address
  freePositive : ∀ b ∈ h.free, 0 < b.size
  /-- Live blocks stand in ascending order. -/
  liveAscending : h.live.Pairwise fun b c => b.address < c.address
  livePositive : ∀ b ∈ h.live, 0 < b.size
  tiles : Tiles start finish (h.free ++ h.live)

theorem wellFormed_init (start size : Nat) : (init start size).WellFormed start (start + size) := by
  unfold init
  split
  · rename_i hpos
    refine ⟨List.pairwise_singleton _ _, ?_, .nil, nofun, ?_⟩
    · rintro b hb
      cases List.mem_singleton.mp hb
      exact hpos
    · intro address
      simp only [List.append_nil, cover_cons, Block.covers_iff, Block.finish]
      exact Nat.zero_add _
  · refine ⟨.nil, nofun, .nil, nofun, ?_⟩
    intro address
    rw [if_neg (by omega)]
    rfl

/-! ## Taking from the free blocks -/

section

variable {size address : Nat} {free left : List Block}

theorem takeFirst_cases {b : Block} (h : takeFirst size (b :: free) = some (address, left)) :
    (size ≤ b.size ∧ address = b.address ∧
        left = (if b.size = size then [] else [⟨b.address + size, b.size - size⟩]) ++ free) ∨
      ∃ rest, b.size < size ∧ takeFirst size free = some (address, rest) ∧ left = b :: rest := by
  unfold takeFirst at h
  split at h
  · rename_i hle
    cases h
    exact .inl ⟨hle, rfl, rfl⟩
  · rename_i hlt
    split at h
    · rename_i rest hrest
      cases h
      exact .inr ⟨_, Nat.lt_of_not_le hlt, hrest, rfl⟩
    · cases h

theorem cover_takeFirst (h : takeFirst size free = some (address, left)) (x : Nat) :
    cover free x = cover (⟨address, size⟩ :: left) x := by
  induction free generalizing left with
  | nil => cases h
  | cons b free ih =>
    rcases takeFirst_cases h with ⟨hle, rfl, rfl⟩ | ⟨rest, -, hrest, rfl⟩
    · obtain ⟨address, total⟩ := b
      obtain ⟨rest, rfl⟩ := Nat.exists_eq_add_of_le hle
      by_cases hnone : rest = 0
      · subst hnone
        simp
      · simp [hnone, cover_cut]
    · rw [cover_cons, ih hrest, cover_cons, cover_cons, cover_cons]
      omega

theorem positive_takeFirst (h : takeFirst size free = some (address, left))
    (hpos : ∀ b ∈ free, 0 < b.size) : ∀ b ∈ left, 0 < b.size := by
  induction free generalizing left with
  | nil => cases h
  | cons b free ih =>
    obtain ⟨hb, hfree⟩ := List.forall_mem_cons.mp hpos
    rcases takeFirst_cases h with ⟨hle, rfl, rfl⟩ | ⟨rest, -, hrest, rfl⟩
    · split
      · exact hfree
      · refine List.forall_mem_cons.mpr ⟨?_, hfree⟩
        change 0 < b.size - size
        omega
    · exact List.forall_mem_cons.mpr ⟨hb, ih hrest hfree⟩

/-- Taking from the front of a block only moves its front up. -/
theorem lt_address_of_takeFirst (h : takeFirst size free = some (address, left)) {n : Nat}
    (hn : ∀ b ∈ free, n < b.address) : ∀ b ∈ left, n < b.address := by
  induction free generalizing left with
  | nil => cases h
  | cons b free ih =>
    obtain ⟨hb, hfree⟩ := List.forall_mem_cons.mp hn
    rcases takeFirst_cases h with ⟨hle, rfl, rfl⟩ | ⟨rest, -, hrest, rfl⟩
    · split
      · exact hfree
      · refine List.forall_mem_cons.mpr ⟨?_, hfree⟩
        change n < b.address + size
        omega
    · exact List.forall_mem_cons.mpr ⟨hb, ih hrest hfree⟩

theorem separate_takeFirst (h : takeFirst size free = some (address, left))
    (hsep : free.Pairwise fun b c => b.finish < c.address) :
    left.Pairwise fun b c => b.finish < c.address := by
  induction free generalizing left with
  | nil => cases h
  | cons b free ih =>
    obtain ⟨hb, hfree⟩ := List.pairwise_cons.mp hsep
    rcases takeFirst_cases h with ⟨hle, rfl, rfl⟩ | ⟨rest, -, hrest, rfl⟩
    · split
      · exact hfree
      · refine List.pairwise_cons.mpr ⟨fun c hc => ?_, hfree⟩
        have hfinish : b.address + size + (b.size - size) = b.finish := by
          simp only [Block.finish]
          omega
        rw [Block.finish, hfinish]
        exact hb c hc
    · exact List.pairwise_cons.mpr ⟨lt_address_of_takeFirst hrest hb, ih hrest hfree⟩

end

/-! ## Giving back to the free blocks -/

section

variable {b : Block} {free : List Block}

/-- A block that is given back is covered once more, wherever it is joined with others. -/
theorem cover_giveBack (b : Block) (free : List Block) (x : Nat) :
    cover (giveBack b free) x = cover (b :: free) x := by
  fun_induction giveBack b free with
  | case1 => rfl
  | case2 b c rest hle htouch =>
    obtain ⟨address, size⟩ := b
    obtain ⟨_, rest⟩ := c
    cases htouch
    exact cover_cut address size rest _ x
  | case3 => rfl
  | case4 b c rest hlt htouch ih =>
    obtain ⟨address, size⟩ := c
    obtain ⟨_, rest⟩ := b
    cases htouch
    rw [ih, cover_cut]
    exact cover_perm (.swap ..) x
  | case5 b c rest hlt hgap ih =>
    rw [cover_cons, ih, ← cover_cons]
    exact cover_perm (.swap ..) x

theorem positive_giveBack (hb : 0 < b.size) (hfree : ∀ c ∈ free, 0 < c.size) :
    ∀ c ∈ giveBack b free, 0 < c.size := by
  fun_induction giveBack b free with
  | case1 => simpa using hb
  | case2 b c rest hle htouch =>
    obtain ⟨hc, hrest⟩ := List.forall_mem_cons.mp hfree
    exact List.forall_mem_cons.mpr ⟨Nat.add_pos_left hb _, hrest⟩
  | case3 => exact List.forall_mem_cons.mpr ⟨hb, hfree⟩
  | case4 b c rest hlt htouch ih =>
    obtain ⟨hc, hrest⟩ := List.forall_mem_cons.mp hfree
    exact ih (Nat.add_pos_left hc _) hrest
  | case5 b c rest hlt hgap ih =>
    obtain ⟨hc, hrest⟩ := List.forall_mem_cons.mp hfree
    exact List.forall_mem_cons.mpr ⟨hc, ih hb hrest⟩

theorem lt_address_of_giveBack {n : Nat} (hb : n < b.address) (hfree : ∀ c ∈ free, n < c.address) :
    ∀ c ∈ giveBack b free, n < c.address := by
  fun_induction giveBack b free with
  | case1 => simpa using hb
  | case2 b c rest hle htouch =>
    obtain ⟨hc, hrest⟩ := List.forall_mem_cons.mp hfree
    exact List.forall_mem_cons.mpr ⟨hb, hrest⟩
  | case3 => exact List.forall_mem_cons.mpr ⟨hb, hfree⟩
  | case4 b c rest hlt htouch ih =>
    obtain ⟨hc, hrest⟩ := List.forall_mem_cons.mp hfree
    exact ih hc hrest
  | case5 b c rest hlt hgap ih =>
    obtain ⟨hc, hrest⟩ := List.forall_mem_cons.mp hfree
    exact List.forall_mem_cons.mpr ⟨hc, ih hb hrest⟩

/-- A block that lies apart from separate blocks is joined with exactly those that it touches. -/
theorem separate_giveBack (hapart : ∀ c ∈ free, b.Apart c) (hpos : ∀ c ∈ free, 0 < c.size)
    (hsep : free.Pairwise fun c d => c.finish < d.address) :
    (giveBack b free).Pairwise fun c d => c.finish < d.address := by
  fun_induction giveBack b free with
  | case1 => exact List.pairwise_singleton _ _
  | case2 b c rest hle htouch =>
    obtain ⟨hc, hrest⟩ := List.pairwise_cons.mp hsep
    refine List.pairwise_cons.mpr ⟨fun d hd => ?_, hrest⟩
    have hlt := hc d hd
    simp only [Block.finish] at hlt htouch ⊢
    omega
  | case3 b c rest hle hgap =>
    have hbc : b.finish < c.address := by
      have hposc := hpos c List.mem_cons_self
      rcases hapart c List.mem_cons_self with h | h
      · omega
      · simp only [Block.finish] at h
        omega
    refine List.pairwise_cons.mpr ⟨List.forall_mem_cons.mpr ⟨hbc, fun d hd => ?_⟩, hsep⟩
    have hcd := (List.pairwise_cons.mp hsep).1 d hd
    simp only [Block.finish] at hcd hbc ⊢
    omega
  | case4 b c rest hlt htouch ih =>
    obtain ⟨hc, hrest⟩ := List.pairwise_cons.mp hsep
    refine ih (fun d hd => ?_) (fun d hd => hpos d (List.mem_cons_of_mem _ hd)) hrest
    have hcd := hc d hd
    have hbd := hapart d (List.mem_cons_of_mem _ hd)
    simp only [Block.Apart, Block.finish] at hcd hbd htouch ⊢
    omega
  | case5 b c rest hlt hgap ih =>
    obtain ⟨hc, hrest⟩ := List.pairwise_cons.mp hsep
    have hcb : c.finish < b.address := by
      have hbc := hapart c List.mem_cons_self
      simp only [Block.Apart, Block.finish] at hbc hgap ⊢
      omega
    refine List.pairwise_cons.mpr ⟨lt_address_of_giveBack hcb hc, ih (fun d hd => ?_) ?_ hrest⟩
    · exact hapart d (List.mem_cons_of_mem _ hd)
    · exact fun d hd => hpos d (List.mem_cons_of_mem _ hd)

end

/-! ## Live blocks -/

theorem insertLive_perm (b : Block) (live : List Block) : (insertLive b live).Perm (b :: live) := by
  fun_induction insertLive b live with
  | case1 => exact .refl _
  | case2 => exact .refl _
  | case3 c rest hle ih => exact (ih.cons c).trans (.swap ..)

theorem ascending_insertLive {b : Block} {live : List Block}
    (hnew : ∀ c ∈ live, b.address ≠ c.address)
    (hasc : live.Pairwise fun c d => c.address < d.address) :
    (insertLive b live).Pairwise fun c d => c.address < d.address := by
  fun_induction insertLive b live with
  | case1 => exact List.pairwise_singleton _ _
  | case2 c rest hlt =>
    refine List.pairwise_cons.mpr ⟨List.forall_mem_cons.mpr ⟨hlt, fun d hd => ?_⟩, hasc⟩
    exact Nat.lt_trans hlt ((List.pairwise_cons.mp hasc).1 d hd)
  | case3 c rest hle ih =>
    obtain ⟨hc, hrest⟩ := List.pairwise_cons.mp hasc
    have hne := hnew c List.mem_cons_self
    refine List.pairwise_cons.mpr ⟨fun d hd => ?_, ih ?_ hrest⟩
    · rcases List.mem_cons.mp ((insertLive_perm b rest).mem_iff.mp hd) with rfl | hd
      · omega
      · exact hc d hd
    · exact fun d hd => hnew d (List.mem_cons_of_mem _ hd)

/-- The blocks at other addresses are all but the one at an address. -/
theorem perm_cons_filter {live : List Block} {address size : Nat}
    (hasc : live.Pairwise fun b c => b.address < c.address)
    (hmem : (⟨address, size⟩ : Block) ∈ live) :
    live.Perm (⟨address, size⟩ :: live.filter fun b => b.address ≠ address) := by
  induction live with
  | nil => cases hmem
  | cons b rest ih =>
    obtain ⟨hb, hrest⟩ := List.pairwise_cons.mp hasc
    rcases List.mem_cons.mp hmem with heq | hmem
    · subst heq
      have hall : rest.filter (fun c => c.address ≠ address) = rest := by
        refine List.filter_eq_self.mpr fun c hc => ?_
        have hlt : address < c.address := hb c hc
        exact decide_eq_true (by omega)
      rw [List.filter_cons_of_neg (by simp), hall]
    · have hlt : b.address < address := hb _ hmem
      have hne : b.address ≠ address := by omega
      rw [List.filter_cons_of_pos (by simpa using hne)]
      exact ((ih hrest hmem).cons b).trans (.swap ..)

theorem mem_of_liveSize? {h : Heap} {address size : Nat} (hsize : h.liveSize? address = some size) :
    (⟨address, size⟩ : Block) ∈ h.live := by
  obtain ⟨b, hb, rfl⟩ := Option.map_eq_some_iff.mp hsize
  have haddress : b.address = address := by simpa using List.find?_some hb
  rw [← haddress]
  exact List.mem_of_find?_eq_some hb

/-! ## Allocation and release -/

section

variable {start finish : Nat} {h : Heap}

theorem Tiles.of_cover {blocks more : List Block} (ht : Tiles start finish blocks)
    (hcover : ∀ x, cover more x = cover blocks x) : Tiles start finish more :=
  fun x => (hcover x).trans (ht x)

theorem Tiles.cover_le_one {blocks : List Block} (ht : Tiles start finish blocks) (x : Nat) :
    cover blocks x ≤ 1 := by
  rw [ht x]
  split
  · exact Nat.le_refl 1
  · exact Nat.zero_le 1

/-- An address is not both free and live. -/
theorem WellFormed.not_free_and_live (hw : h.WellFormed start finish) {x : Nat}
    (hfree : 0 < cover h.free x) (hlive : 0 < cover h.live x) : False := by
  have hle := hw.tiles.cover_le_one x
  rw [cover_append] at hle
  omega

/-- A live and a free block have no address in common. -/
theorem WellFormed.apart (hw : h.WellFormed start finish) {b c : Block} (hb : b ∈ h.live)
    (hc : c ∈ h.free) : b.Apart c := by
  have hposb := hw.livePositive b hb
  have hposc := hw.freePositive c hc
  have hoverlap : ¬(c.address < b.finish ∧ b.address < c.finish) := by
    rintro ⟨hcb, hbc⟩
    have hbx : b.covers (max b.address c.address) := by
      simp only [Block.covers_iff, Block.finish] at hcb hbc ⊢
      omega
    have hcx : c.covers (max b.address c.address) := by
      simp only [Block.covers_iff, Block.finish] at hcb hbc ⊢
      omega
    exact hw.not_free_and_live (cover_pos_iff.mpr ⟨c, hc, hcx⟩) (cover_pos_iff.mpr ⟨b, hb, hbx⟩)
  unfold Block.Apart
  omega

theorem wellFormed_alloc {size address : Nat} {next : Heap} (hw : h.WellFormed start finish)
    (hsize : 0 < size) (halloc : h.alloc size = some (address, next)) :
    next.WellFormed start finish := by
  unfold alloc at halloc
  split at halloc
  · rename_i address' free htake
    cases halloc
    have hcover : ∀ x, cover (free ++ insertLive ⟨address, size⟩ h.live) x =
        cover (h.free ++ h.live) x := by
      intro x
      rw [cover_append, cover_append, cover_takeFirst htake, cover_perm (insertLive_perm ..),
        cover_cons, cover_cons]
      omega
    have hnew : ∀ c ∈ h.live, address ≠ c.address := by
      rintro c hc rfl
      have hself : (⟨c.address, size⟩ : Block).covers c.address := by
        simp only [Block.covers_iff, Block.finish]
        omega
      have hcself : c.covers c.address := by
        have hpos := hw.livePositive c hc
        simp only [Block.covers_iff, Block.finish]
        omega
      refine hw.not_free_and_live (x := c.address) ?_ (cover_pos_iff.mpr ⟨c, hc, hcself⟩)
      rw [cover_takeFirst htake]
      exact cover_pos_iff.mpr ⟨_, List.mem_cons_self, hself⟩
    refine ⟨separate_takeFirst htake hw.freeSeparate, positive_takeFirst htake hw.freePositive,
      ascending_insertLive hnew hw.liveAscending, ?_, hw.tiles.of_cover hcover⟩
    intro b hb
    rcases List.mem_cons.mp ((insertLive_perm ..).mem_iff.mp hb) with rfl | hb
    · exact hsize
    · exact hw.livePositive b hb
  · cases halloc

theorem wellFormed_release {address : Nat} {next : Heap} (hw : h.WellFormed start finish)
    (hrelease : h.release address = some next) : next.WellFormed start finish := by
  unfold release at hrelease
  split at hrelease
  · rename_i size hsize
    cases hrelease
    have hmem := mem_of_liveSize? hsize
    have hperm := perm_cons_filter hw.liveAscending hmem
    have hcover : ∀ x, cover (giveBack ⟨address, size⟩ h.free ++
        h.live.filter fun b => b.address ≠ address) x = cover (h.free ++ h.live) x := by
      intro x
      rw [cover_append, cover_append, cover_giveBack, cover_perm hperm, cover_cons, cover_cons]
      omega
    refine ⟨separate_giveBack (fun c hc => hw.apart hmem hc) hw.freePositive hw.freeSeparate,
      positive_giveBack (hw.livePositive _ hmem) hw.freePositive,
      hw.liveAscending.sublist List.filter_sublist, ?_, hw.tiles.of_cover hcover⟩
    exact fun b hb => hw.livePositive b (List.mem_filter.mp hb).1
  · cases hrelease

end

end Heap

end Hostcall
