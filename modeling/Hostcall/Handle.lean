/-!
# Handles

A handle names a registered context: the index of its slot and the generation of the slot at
the time of registration. Packed into one word, the generation is the upper half. Generations
start at one, so no handle packs to zero.
-/

namespace Hostcall

/-- The name of a registered context. -/
structure Handle where
  index : UInt32
  generation : UInt32
  deriving DecidableEq, Repr

namespace Handle

/-- The handle of a context that is never registered. No registry gives it out. -/
def detached : Handle := ⟨0xffffffff, 0⟩

/-- A handle packed into one word. -/
def toRaw (h : Handle) : UInt64 :=
  UInt64.ofNat (h.generation.toNat <<< 32 + h.index.toNat)

/-- The handle packed into a word. A word with generation zero holds none. -/
def ofRaw? (raw : UInt64) : Option Handle :=
  let generation := raw.toNat >>> 32
  if generation = 0 then none
  else some ⟨UInt32.ofNat raw.toNat, UInt32.ofNat generation⟩

/-- A handle in a message. -/
def text (h : Handle) : String := s!"#{h.index.toNat}v{h.generation.toNat}"

/-- A handle spelled out field by field. -/
def description (h : Handle) : String :=
  s!"Handle \x7b index: {h.index.toNat}, generation: {h.generation.toNat} \x7d"

theorem toNat_toRaw (h : Handle) :
    h.toRaw.toNat = h.generation.toNat <<< 32 + h.index.toNat := by
  have hg := h.generation.toNat_lt
  have hi := h.index.toNat_lt
  simp only [toRaw, UInt64.toNat_ofNat']
  omega

theorem ofRaw?_toRaw {h : Handle} (hg : h.generation ≠ 0) : ofRaw? h.toRaw = some h := by
  obtain ⟨index, generation⟩ := h
  have hi := index.toNat_lt
  have hz : generation.toNat ≠ 0 := fun h0 => hg (UInt32.toNat_inj.mp h0)
  have hd : (generation.toNat <<< 32 + index.toNat) >>> 32 = generation.toNat := by omega
  have hm : UInt32.ofNat (generation.toNat <<< 32 + index.toNat) = index := by
    apply UInt32.toNat_inj.mp
    simp only [UInt32.toNat_ofNat']
    omega
  simp only [ofRaw?, toNat_toRaw, hd, hz, if_false, hm, UInt32.ofNat_toNat]

theorem toRaw_of_ofRaw? {raw : UInt64} {h : Handle} (hr : ofRaw? raw = some h) :
    h.toRaw = raw := by
  have hl := raw.toNat_lt
  simp only [ofRaw?] at hr
  split at hr
  · cases hr
  · cases hr
    apply UInt64.toNat_inj.mp
    simp only [toNat_toRaw, UInt32.toNat_ofNat']
    omega

end Handle

end Hostcall
