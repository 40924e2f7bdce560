import Hostcall.Proofs.Arena.Placement

/-!
# Giving memory back

A live block can be released by its address and by nothing else (`exists_deallocMemory_iff`).
Where the free blocks are joined depends on what has been released before, yet the heap that is
left does not. Neither of the two main steps looks at how blocks are joined:

* `deallocAll_loses`: releasing blocks at different addresses succeeds, removes exactly these from
  the live blocks and leaves all but the heap as it was. The induction is on the addresses.
* `Loses.eq_of_perm`: the live blocks that are left decide what the free ones are
  (`Heap.WellFormed.free_eq`), so the order makes no difference.

The same fact gives the free blocks back after an allocation has been undone, and the one free
block of a heap in which nothing is live.
-/

namespace Hostcall

namespace Heap

/-! ## Releasing one block -/

section

variable {start finish address : Nat} {h next : Heap}

theorem liveSize?_eq_none_iff : h.liveSize? address = none ↔ ∀ b ∈ h.live, b.address ≠ address := by
  simp [liveSize?]

theorem release_eq_some (hrelease : h.release address = some next) :
    next.live = h.live.filter fun b => b.address ≠ address := by
  unfold release at hrelease
  split at hrelease
  · cases hrelease
    rfl
  · cases hrelease

/-- What starts at the address of a live block, and nothing else, can be released. -/
theorem exists_release_iff :
    (∃ next, h.release address = some next) ↔ ∃ b ∈ h.live, b.address = address := by
  unfold release
  cases hsize : h.liveSize? address with
  | none =>
    have hnone := liveSize?_eq_none_iff.mp hsize
    simpa using hnone
  | some size =>
    have hmem := mem_of_liveSize? hsize
    simp only [Option.some.injEq, exists_eq', true_iff]
    exact ⟨_, hmem, rfl⟩

/-- A block that is put among live blocks at other addresses can be taken out again. -/
theorem filter_insertLive {b : Block} {live : List Block}
    (hnew : ∀ c ∈ live, c.address ≠ b.address) :
    (insertLive b live).filter (fun c => c.address ≠ b.address) = live := by
  have hself : live.filter (fun c => c.address ≠ b.address) = live :=
    List.filter_eq_self.mpr fun c hc => decide_eq_true (hnew c hc)
  fun_induction insertLive b live with
  | case1 => simp
  | case2 c rest hlt => rw [List.filter_cons_of_neg (by simp), hself]
  | case3 c rest hle ih =>
    obtain ⟨hc, hrest⟩ := List.forall_mem_cons.mp hnew
    rw [List.filter_cons_of_pos (by simpa using hc)] at hself ⊢
    rw [ih hrest (List.tail_eq_of_cons_eq hself)]

/-- No live block starts where a gap starts. -/
theorem IsGap.address_ne {g : Block} (hw : h.WellFormed start finish)
    (hg : IsGap start finish h.live g) : ∀ c ∈ h.live, c.address ≠ g.address := by
  intro c hc heq
  have hpos := hw.livePositive c hc
  apply hg.vacant g.address hg.covers_address
  refine ⟨c, hc, Block.covers_iff.mpr ?_⟩
  simp only [Block.finish]
  omega

/-- Heaps of the same addresses with the same live blocks are one heap. -/
theorem WellFormed.eq_of_live (hw : h.WellFormed start finish) (hw' : next.WellFormed start finish)
    (hlive : next.live = h.live) : next = h := by
  obtain ⟨free, live⟩ := h
  obtain ⟨free', live'⟩ := next
  have hfree : free' = free := hw.free_eq hw' hlive
  subst hfree
  cases hlive
  rfl

/-- Releasing what has just been allocated restores the heap. -/
theorem WellFormed.release_of_alloc (hw : h.WellFormed start finish) {size : Nat} (hpos : 0 < size)
    (halloc : h.alloc size = some (address, next)) : next.release address = some h := by
  obtain ⟨-, hlive⟩ := alloc_eq_some halloc
  have hnew := (hw.isLeast_of_alloc hpos halloc).1.address_ne hw
  have hmem : (⟨address, size⟩ : Block) ∈ next.live := by
    rw [hlive]
    exact (insertLive_perm ..).mem_iff.mpr List.mem_cons_self
  obtain ⟨last, hlast⟩ := exists_release_iff.mpr ⟨_, hmem, rfl⟩
  have hback : last.live = h.live := by
    rw [release_eq_some hlast, hlive]
    exact filter_insertLive hnew
  have hnext := wellFormed_alloc hw hpos halloc
  rw [hlast, hw.eq_of_live (wellFormed_release hnext hlast) hback]

end

end Heap

namespace Arena

open Attempt

variable {stackSize memorySize address : Nat} {a b c : Arena} {xs ys : List Nat}

theorem deallocMemory_eq_ok_iff :
    a.deallocMemory address = .ok b ↔
      ∃ heap, a.heap.release address = some heap ∧ b = { a with heap } := by
  unfold deallocMemory
  cases a.heap.release address with
  | none => simp
  | some heap => simp [eq_comm]

theorem exists_deallocMemory_iff :
    (∃ b, a.deallocMemory address = .ok b) ↔ ∃ c ∈ a.heap.live, c.address = address := by
  rw [← Heap.exists_release_iff]
  constructor
  · rintro ⟨b, hb⟩
    obtain ⟨heap, hheap, -⟩ := deallocMemory_eq_ok_iff.mp hb
    exact ⟨heap, hheap⟩
  · rintro ⟨heap, hheap⟩
    exact ⟨_, deallocMemory_eq_ok_iff.mpr ⟨heap, hheap, rfl⟩⟩

/-! ## Releasing several blocks -/

/-- Releases the live blocks at addresses one after the other. -/
def deallocAll (a : Arena) (addresses : List Nat) : Except ArenaError Arena :=
  addresses.foldlM deallocMemory a

/-- `b` is `a` without the live blocks at addresses. Only the heap has changed. -/
structure Loses (a : Arena) (xs : List Nat) (b : Arena) : Prop where
  live : b.heap.live = a.heap.live.filter fun c => c.address ∉ xs
  rest : b = { a with heap := b.heap }

theorem loses_deallocMemory (h : a.deallocMemory address = .ok b) : a.Loses [address] b := by
  obtain ⟨heap, hrelease, rfl⟩ := deallocMemory_eq_ok_iff.mp h
  refine ⟨?_, rfl⟩
  rw [Heap.release_eq_some hrelease]
  simp

theorem Loses.cons {x : Nat} (hx : a.Loses [x] b) (hxs : b.Loses xs c) : a.Loses (x :: xs) c := by
  constructor
  · rw [hxs.live, hx.live, List.filter_filter]
    apply List.filter_congr
    simp [Bool.and_comm]
  · rw [hxs.rest, hx.rest]

/-- **Run.** Live blocks at different addresses can all be released. -/
theorem deallocAll_loses (hw : a.WellFormed stackSize memorySize) (hxs : xs.Nodup)
    (hlive : ∀ x ∈ xs, ∃ c ∈ a.heap.live, c.address = x) :
    ∃ b, a.deallocAll xs = .ok b ∧ b.WellFormed stackSize memorySize ∧ a.Loses xs b := by
  induction xs generalizing a with
  | nil =>
    have hall : a.heap.live.filter (fun c => c.address ∉ ([] : List Nat)) = a.heap.live :=
      List.filter_eq_self.mpr (by simp)
    exact ⟨a, rfl, hw, hall.symm, rfl⟩
  | cons x xs ih =>
    obtain ⟨hx, hxs⟩ := List.nodup_cons.mp hxs
    obtain ⟨⟨c, hc, hcx⟩, hrest⟩ := List.forall_mem_cons.mp hlive
    obtain ⟨a', ha'⟩ := exists_deallocMemory_iff.mpr ⟨c, hc, hcx⟩
    have hloses := loses_deallocMemory ha'
    -- The blocks that are still to be released are not the one that has been.
    have hlive' : ∀ y ∈ xs, ∃ d ∈ a'.heap.live, d.address = y := by
      intro y hy
      obtain ⟨d, hd, hdy⟩ := hrest y hy
      have hne : d.address ≠ x := by
        intro heq
        exact hx (by rwa [← heq, hdy])
      refine ⟨d, ?_, hdy⟩
      rw [hloses.live]
      exact List.mem_filter.mpr ⟨hd, by simpa using hne⟩
    obtain ⟨b, hb, hwb, hlosesb⟩ := ih (hw.deallocMemory ha') hxs hlive'
    exact ⟨b, bind_eq_ok_iff.mpr ⟨a', ha', hb⟩, hwb, hloses.cons hlosesb⟩

/-- What is left does not depend on the order. -/
theorem Loses.eq_of_perm (hb : a.Loses xs b) (hc : a.Loses ys c) (hperm : ys.Perm xs)
    (hwb : b.WellFormed stackSize memorySize) (hwc : c.WellFormed stackSize memorySize) :
    c = b := by
  have hlive : c.heap.live = b.heap.live := by
    rw [hb.live, hc.live]
    apply List.filter_congr
    simp [hperm.mem_iff]
  rw [hb.rest, hc.rest, hwb.heap.eq_of_live hwc.heap hlive]

/-- Where nothing is live, all is free in one piece. -/
theorem WellFormed.heap_of_live_nil (hw : a.WellFormed stackSize memorySize)
    (hlive : a.heap.live = []) :
    a.heap = ⟨if memorySize = 0 then [] else [⟨stackSize, memorySize⟩], []⟩ := by
  have hinit := Heap.wellFormed_init stackSize memorySize
  rw [hinit.eq_of_live hw.heap hlive, Heap.init]
  by_cases hzero : memorySize = 0
  · simp [hzero]
  · simp [hzero, Nat.pos_of_ne_zero hzero]

theorem WellFormed.nodup_addresses (hw : a.WellFormed stackSize memorySize) :
    (a.heap.live.map (·.address)).Nodup := by
  apply List.pairwise_map.mpr
  exact hw.heap.liveAscending.imp fun hlt => Nat.ne_of_lt hlt

/-! ## Every arena -/

/-- **Giving memory back.** Whatever has been asked of a new arena: what starts at the address of a
live block, and nothing else, can be released; releasing what has just been allocated restores the
free and the live blocks; live blocks at different addresses can be released in any order, and what
is left is the same and has the bytes that were there; and when all are released there is one free
block, or none in a heap without addresses. -/
theorem deallocMemory_restores_in_any_order {room : Nat} {new : Arena}
    (h : create room stackSize memorySize = .ok new) (actions : List Action) :
    let a := new.performAll actions
    (∀ x, (∃ b, a.deallocMemory x = .ok b) ↔ ∃ c ∈ a.heap.live, c.address = x) ∧
      (∀ size address b, a.allocMemory size = .ok (address, b) →
        b.deallocMemory address = .ok { b with heap := a.heap }) ∧
      (∀ xs ys : List Nat, xs.Nodup → (∀ x ∈ xs, ∃ c ∈ a.heap.live, c.address = x) → ys.Perm xs →
        ∃ b, a.deallocAll xs = .ok b ∧ a.deallocAll ys = .ok b ∧ a.Loses xs b ∧
          b.bytes = a.bytes) ∧
      ∀ xs : List Nat, xs.Perm (a.heap.live.map (·.address)) →
        ∃ b, a.deallocAll xs = .ok b ∧ b.bytes = a.bytes ∧
          b.heap = ⟨if memorySize = 0 then [] else [⟨stackSize, memorySize⟩], []⟩ := by
  intro a
  have hw : a.WellFormed stackSize memorySize := wellFormed_performAll (wellFormed_create h) actions
  refine ⟨fun x => exists_deallocMemory_iff, ?_, ?_, ?_⟩
  · intro size address b hok
    obtain ⟨heap, halloc, rfl⟩ := allocMemory_eq_ok hok
    apply deallocMemory_eq_ok_iff.mpr
    exact ⟨a.heap, hw.heap.release_of_alloc (Nat.le_max_right size 1) halloc, rfl⟩
  · intro xs ys hxs hlive hperm
    obtain ⟨b, hb, hwb, hlosesb⟩ := deallocAll_loses hw hxs hlive
    have hlive' : ∀ y ∈ ys, ∃ c ∈ a.heap.live, c.address = y := by
      intro y hy
      exact hlive y (hperm.mem_iff.mp hy)
    obtain ⟨c, hc, hwc, hlosesc⟩ := deallocAll_loses hw (hperm.nodup_iff.mpr hxs) hlive'
    rw [hlosesb.eq_of_perm hlosesc hperm hwb hwc] at hc
    refine ⟨b, hb, hc, hlosesb, ?_⟩
    rw [hlosesb.rest]
  · intro xs hperm
    have hlive : ∀ x ∈ xs, ∃ c ∈ a.heap.live, c.address = x := by
      intro x hx
      exact List.mem_map.mp (hperm.mem_iff.mp hx)
    obtain ⟨b, hb, hwb, hloses⟩ :=
      deallocAll_loses hw (hperm.nodup_iff.mpr hw.nodup_addresses) hlive
    have hnone : b.heap.live = [] := by
      rw [hloses.live, List.filter_eq_nil_iff]
      intro c hc
      simpa using hperm.mem_iff.mpr (List.mem_map_of_mem hc)
    refine ⟨b, hb, ?_, hwb.heap_of_live_nil hnone⟩
    rw [hloses.rest]

/-- Four blocks are taken, which fill the heap. -/
def filling : List Action :=
  [.allocMemory 4, .allocMemory 0, .allocMemory 8, .allocMemory 3]

/-- Two orders in which blocks are joined differently: neighbours first, and every second block
first. -/
theorem filling_restores_in_any_order : ∃ new, create 32 8 16 = .ok new ∧
    (new.performAll filling).heap = ⟨[], [⟨8, 4⟩, ⟨12, 1⟩, ⟨13, 8⟩, ⟨21, 3⟩]⟩ ∧
    (∃ b, (new.performAll filling).deallocAll [13, 21, 12] = .ok b ∧
      (new.performAll filling).deallocAll [21, 12, 13] = .ok b) ∧
    ∃ b, (new.performAll filling).deallocAll [13, 8, 21, 12] = .ok b ∧
      b.heap = ⟨[⟨8, 16⟩], []⟩ := by
  obtain ⟨new, hnew⟩ : ∃ new, create 32 8 16 = .ok new := ⟨_, rfl⟩
  have hheap : (new.performAll filling).heap =
      ⟨[], [⟨8, 4⟩, ⟨12, 1⟩, ⟨13, 8⟩, ⟨21, 3⟩]⟩ := by
    cases hnew
    decide
  obtain ⟨-, -, horder, hall⟩ := deallocMemory_restores_in_any_order hnew filling
  have hthree := horder [13, 21, 12] [21, 12, 13] (by decide)
  have hfour := hall [13, 8, 21, 12]
  rw [hheap] at hthree hfour
  obtain ⟨b, hb, hb', -⟩ := hthree (by decide) (by decide)
  obtain ⟨c, hc, -, hempty⟩ := hfour (by decide)
  exact ⟨new, hnew, hheap, ⟨b, hb, hb'⟩, c, hc, hempty⟩

end Arena

end Hostcall
