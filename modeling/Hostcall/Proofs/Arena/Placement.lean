import Hostcall.Proofs.Arena.Invariant
import Mathlib.Order.Bounds.Defs

/-!
# Where memory is allocated

Allocation walks the free blocks and takes the front of the first one that is large enough. In a
well-formed heap this is the least address at which the request fits at all.

* A gap lies inside one free block (`WellFormed.exists_free_around`), because free blocks do not
  touch. So a request that fits anywhere fits into a free block, and it fits at its front.
* The free blocks ascend, so that the first one that is large enough has the least front
  (`address_le_of_takeFirst`).
* The bytes of the new block become zero and no other byte changes (`allocMemory_gains`).
-/

namespace Hostcall

namespace Heap

/-! ## The first free block that is large enough -/

section

variable {size address : Nat} {free left : List Block}

theorem takeFirst_eq_none_iff : takeFirst size free = none ↔ ∀ b ∈ free, b.size < size := by
  induction free with
  | nil => simp [takeFirst]
  | cons b free ih =>
    rw [takeFirst, List.forall_mem_cons, ← ih]
    by_cases hle : size ≤ b.size
    · have hlarge : ¬b.size < size := by omega
      simp [hle, hlarge]
    · have hsmall : b.size < size := by omega
      cases htake : takeFirst size free with
      | none => simp [hle, hsmall]
      | some r => simp [hle]

/-- What is taken is the front of a block. -/
theorem exists_front_of_takeFirst (h : takeFirst size free = some (address, left)) :
    ∃ b ∈ free, b.address = address ∧ size ≤ b.size := by
  induction free generalizing left with
  | nil => cases h
  | cons b free ih =>
    rcases takeFirst_cases h with ⟨hle, haddress, -⟩ | ⟨rest, -, hrest, -⟩
    · exact ⟨b, List.mem_cons_self, haddress.symm, hle⟩
    · obtain ⟨c, hc, hfront⟩ := ih hrest
      exact ⟨c, List.mem_cons_of_mem _ hc, hfront⟩

/-- Of blocks in ascending order the lowest one that is large enough is taken. -/
theorem address_le_of_takeFirst (h : takeFirst size free = some (address, left))
    (hsep : free.Pairwise fun b c => b.finish < c.address) {c : Block} (hc : c ∈ free)
    (hle : size ≤ c.size) : address ≤ c.address := by
  induction free generalizing left with
  | nil => cases h
  | cons b free ih =>
    obtain ⟨hb, hfree⟩ := List.pairwise_cons.mp hsep
    rcases takeFirst_cases h with ⟨-, haddress, -⟩ | ⟨rest, hsmall, hrest, -⟩
    · subst haddress
      rcases List.mem_cons.mp hc with heq | hc
      · subst heq
        exact Nat.le_refl _
      · have hlt := hb c hc
        simp only [Block.finish] at hlt
        omega
    · rcases List.mem_cons.mp hc with heq | hc
      · subst heq
        omega
      · exact ih hrest hfree hc

end

/-! ## Gaps and free blocks -/

section

variable {start finish size address : Nat} {h next : Heap}

/-- A gap lies inside one free block. -/
theorem WellFormed.exists_free_around (hw : h.WellFormed start finish) {g : Block}
    (hg : IsGap start finish h.live g) :
    ∃ b ∈ h.free, b.address ≤ g.address ∧ g.finish ≤ b.finish := by
  obtain ⟨b, hb, hfirst⟩ := hw.exists_free_of_isGap hg
  have hlast : b.covers (g.finish - 1) := by
    apply hw.covers_of_isGap hg hb hfirst
    have hpos := hg.positive
    simp only [Block.covers_iff, Block.finish]
    omega
  simp only [Block.covers_iff] at hfirst hlast
  exact ⟨b, hb, hfirst.1, by omega⟩

/-- A part of a gap is a gap. -/
theorem IsGap.part {live : List Block} {g : Block} (hg : IsGap start finish live g)
    (hpos : 0 < size) (hle : g.address ≤ address) (hfinish : address + size ≤ g.finish) :
    IsGap start finish live ⟨address, size⟩ := by
  have hstart := hg.le_address
  have hend := hg.finish_le
  refine ⟨hpos, ?_, ?_, fun x hx => ?_⟩
  · show start ≤ address
    omega
  · show address + size ≤ finish
    omega
  · apply hg.vacant x
    simp only [Block.covers_iff, Block.finish] at hx hfinish ⊢
    omega

/-- A request fits somewhere if and only if it fits at the front of a free block. -/
theorem WellFormed.exists_gap_iff (hw : h.WellFormed start finish) (hpos : 0 < size) :
    (∃ address, IsGap start finish h.live ⟨address, size⟩) ↔ ∃ b ∈ h.free, size ≤ b.size := by
  constructor
  · intro hgap
    obtain ⟨address, hg⟩ := hgap
    obtain ⟨b, hb, hle, hfinish⟩ := hw.exists_free_around hg
    simp only [Block.finish] at hle hfinish
    exact ⟨b, hb, by omega⟩
  · intro hfree
    obtain ⟨b, hb, hle⟩ := hfree
    refine ⟨b.address, (hw.isGap_of_mem_free hb).part hpos (Nat.le_refl _) ?_⟩
    simp only [Block.finish]
    omega

theorem alloc_eq_some (halloc : h.alloc size = some (address, next)) :
    takeFirst size h.free = some (address, next.free) ∧
      next.live = insertLive ⟨address, size⟩ h.live := by
  unfold alloc at halloc
  split at halloc
  · rename_i htake
    cases halloc
    exact ⟨htake, rfl⟩
  · cases halloc

theorem WellFormed.alloc_eq_none_iff (hw : h.WellFormed start finish) (hpos : 0 < size) :
    h.alloc size = none ↔ ¬∃ address, IsGap start finish h.live ⟨address, size⟩ := by
  have hnone : h.alloc size = none ↔ takeFirst size h.free = none := by
    unfold alloc
    split <;> simp_all
  rw [hnone, takeFirst_eq_none_iff, hw.exists_gap_iff hpos]
  simp

/-- Allocation takes the least address at which the request fits. -/
theorem WellFormed.isLeast_of_alloc (hw : h.WellFormed start finish) (hpos : 0 < size)
    (halloc : h.alloc size = some (address, next)) :
    IsLeast {x | IsGap start finish h.live ⟨x, size⟩} address := by
  obtain ⟨htake, -⟩ := alloc_eq_some halloc
  constructor
  · obtain ⟨b, hb, haddress, hle⟩ := exists_front_of_takeFirst htake
    apply (hw.isGap_of_mem_free hb).part hpos
    · exact Nat.le_of_eq haddress
    · rw [← haddress, Block.finish]
      omega
  · intro x hx
    -- The gap at `x` lies in a free block, which is large enough and starts no later than `x`.
    obtain ⟨b, hb, hle, hfinish⟩ := hw.exists_free_around hx
    simp only [Block.finish] at hle hfinish
    have hfront := address_le_of_takeFirst htake hw.freeSeparate hb (by omega)
    omega

end

end Heap

namespace Arena

open Heap (IsGap)

/-! ## The new block -/

/-- `b` is `a` with one more live block. Its bytes are zero, and all else is as it was. -/
structure Gains (a : Arena) (block : Block) (b : Arena) : Prop where
  live : b.heap.live.Perm (block :: a.heap.live)
  zeroed : ∀ x, block.covers x → b.bytes.data[x]? = some 0
  kept : ∀ x, ¬block.covers x → b.bytes.data[x]? = a.bytes.data[x]?
  top : b.top = a.top
  stackSize : b.stackSize = a.stackSize
  memorySize : b.memorySize = a.memorySize

variable {stackSize memorySize size address : Nat} {a b : Arena}

theorem getElem?_clear {buffer : ByteArray} (hfits : address + size ≤ buffer.size) (x : Nat) :
    (Bytes.clear buffer address size).data[x]? =
      if (⟨address, size⟩ : Block).covers x then some 0 else buffer.data[x]? := by
  rw [Bytes.clear_eq_overwrite, Bytes.getElem?_overwrite, List.length_replicate]
  by_cases hx : (⟨address, size⟩ : Block).covers x
  · have hbounds := Block.covers_iff.mp hx
    simp only [Block.finish] at hbounds
    rw [if_pos hx, if_pos (by omega), List.getElem?_replicate, if_pos (by omega)]
  · have hbounds := mt Block.covers_iff.mpr hx
    simp only [Block.finish] at hbounds
    rw [if_neg hx, if_neg (by omega)]

theorem allocMemory_eq_ok (h : a.allocMemory size = .ok (address, b)) :
    ∃ heap, a.heap.alloc (max size 1) = some (address, heap) ∧
      b = { a.clear address (max size 1) with heap } := by
  unfold allocMemory at h
  dsimp only at h
  split at h
  · rename_i heap halloc
    cases h
    exact ⟨heap, halloc, rfl⟩
  · cases h

theorem allocMemory_eq_error_iff {e : ArenaError} :
    a.allocMemory size = .error e ↔
      a.heap.alloc (max size 1) = none ∧ e = .outOfMemory (max size 1) a.memoryFree := by
  unfold allocMemory
  dsimp only
  split
  · simp_all
  · simp_all [eq_comm]

theorem allocMemory_gains (hw : a.WellFormed stackSize memorySize)
    (h : a.allocMemory size = .ok (address, b)) : a.Gains ⟨address, max size 1⟩ b := by
  obtain ⟨heap, halloc, rfl⟩ := allocMemory_eq_ok h
  obtain ⟨-, hlive⟩ := Heap.alloc_eq_some halloc
  have hgap := (hw.heap.isLeast_of_alloc (Nat.le_max_right size 1) halloc).1
  have hfits : address + max size 1 ≤ a.bytes.size := by
    rw [hw.size_bytes]
    exact hgap.finish_le
  have hbyte := getElem?_clear hfits
  refine ⟨?_, fun x hx => ?_, fun x hx => ?_, rfl, rfl, rfl⟩
  · show heap.live.Perm _
    rw [hlive]
    exact Heap.insertLive_perm ..
  · exact (hbyte x).trans (if_pos hx)
  · exact (hbyte x).trans (if_neg hx)

/-- A byte of the stack or of another live block is no byte of the new block. -/
theorem Gains.kept_of_used {finish : Nat} {block : Block} (hgains : a.Gains block b)
    (hgap : IsGap stackSize finish a.heap.live block) {x : Nat}
    (hx : x < stackSize ∨ ∃ c ∈ a.heap.live, c.covers x) :
    b.bytes.data[x]? = a.bytes.data[x]? := by
  apply hgains.kept
  intro hcovers
  rcases hx with hstack | hlive
  · have hle := hgap.le_address
    have hbounds := Block.covers_iff.mp hcovers
    omega
  · exact hgap.vacant x hcovers hlive

/-! ## Every arena -/

/-- **Where memory is allocated.** Whatever has been asked of a new arena, a further request for
memory is granted if and only if there is an address at which it fits between the live blocks. It
gets the least such address: one live block is added, its bytes become zero, and no other byte
changes, in particular none of the stack and none of another live block. A request that fits
nowhere is refused with the number of free bytes and changes nothing. -/
theorem allocMemory_takes_least_gap {room : Nat} {new : Arena}
    (h : create room stackSize memorySize = .ok new) (actions : List Action) (size : Nat) :
    let a := new.performAll actions
    let fits := {x | IsGap stackSize (stackSize + memorySize) a.heap.live ⟨x, max size 1⟩}
    ((∃ address b, a.allocMemory size = .ok (address, b)) ↔ fits.Nonempty) ∧
      (∀ address b, a.allocMemory size = .ok (address, b) →
        IsLeast fits address ∧ a.Gains ⟨address, max size 1⟩ b ∧
          ∀ x, x < stackSize ∨ (∃ c ∈ a.heap.live, c.covers x) →
            b.bytes.data[x]? = a.bytes.data[x]?) ∧
      (¬fits.Nonempty → a.perform (.allocMemory size) =
        (.error (.outOfMemory (max size 1) a.memoryFree), a)) := by
  intro a fits
  have hw : a.WellFormed stackSize memorySize := wellFormed_performAll (wellFormed_create h) actions
  have hpos : 0 < max size 1 := Nat.le_max_right size 1
  have hnone := hw.heap.alloc_eq_none_iff hpos
  refine ⟨⟨?_, ?_⟩, ?_, ?_⟩
  · rintro ⟨address, b, hok⟩
    obtain ⟨heap, halloc, -⟩ := allocMemory_eq_ok hok
    exact ⟨address, (hw.heap.isLeast_of_alloc hpos halloc).1⟩
  · intro hfits
    cases hok : a.allocMemory size with
    | ok r => exact ⟨r.1, r.2, rfl⟩
    | error e => exact absurd hfits (hnone.mp (allocMemory_eq_error_iff.mp hok).1)
  · intro address b hok
    obtain ⟨heap, halloc, -⟩ := allocMemory_eq_ok hok
    have hleast := hw.heap.isLeast_of_alloc hpos halloc
    have hgains := allocMemory_gains hw hok
    exact ⟨hleast, hgains, fun x hx => hgains.kept_of_used hleast.1 hx⟩
  · intro hfits
    have herror : a.allocMemory size = .error (.outOfMemory (max size 1) a.memoryFree) :=
      allocMemory_eq_error_iff.mpr ⟨hnone.mpr hfits, rfl⟩
    show a.reserving (a.allocMemory size) = _
    rw [herror]
    rfl

/-- The first of two free blocks is too small for five bytes, and no block has room for twelve,
although fifteen bytes are free. -/
theorem fragmenting_takes_least_gap : ∃ new, create 32 8 16 = .ok new ∧
    (∃ b, (new.performAll fragmenting).allocMemory 5 = .ok (13, b) ∧
      IsLeast {x | IsGap 8 24 [⟨12, 1⟩] ⟨x, 5⟩} 13 ∧
      (new.performAll fragmenting).Gains ⟨13, 5⟩ b) ∧
    (new.performAll fragmenting).allocMemory 12 = .error (.outOfMemory 12 15) ∧
    ¬∃ x, IsGap 8 24 [⟨12, 1⟩] ⟨x, 12⟩ := by
  obtain ⟨new, hnew⟩ : ∃ new, create 32 8 16 = .ok new := ⟨_, rfl⟩
  have hlive : (new.performAll fragmenting).heap.live = [⟨12, 1⟩] := by
    cases hnew
    decide
  obtain ⟨b, hb⟩ : ∃ b, (new.performAll fragmenting).allocMemory 5 = .ok (13, b) := by
    cases hnew
    exact ⟨_, rfl⟩
  have hfull : (new.performAll fragmenting).allocMemory 12 = .error (.outOfMemory 12 15) := by
    cases hnew
    rfl
  have hfive := (allocMemory_takes_least_gap hnew fragmenting 5).2.1 13 b hb
  have htwelve := (allocMemory_takes_least_gap hnew fragmenting 12).1
  rw [hlive] at hfive htwelve
  refine ⟨new, hnew, ⟨b, hb, hfive.1, hfive.2.1⟩, hfull, fun hfits => ?_⟩
  obtain ⟨address, c, hc⟩ := htwelve.mpr hfits
  rw [hfull] at hc
  cases hc

end Arena

end Hostcall
