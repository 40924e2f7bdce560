import Mathlib.Data.Finmap
import Hostcall.Proofs.Registry.History

/-!
# A registry is a finite map

A registry keeps slots, generations, a list of vacant slots and a count. What its users see of all
this is a finite map from handles to values: a `Book`. `Book.Serves` says what a change may do to a
book, without a word about slots; the book leaves open which handle an insertion gives out, as long
as it is not in use. Every history of a registry is one of a book, and the registry `Represents`
that book at every time (`history_is_finite_map`).
-/

namespace Hostcall.Registry

variable {ε α : Type} {r t : Registry α} {h : Handle} {value : α}

/-- A finite map from handles to values. -/
abbrev Book (α : Type) := Finmap fun _ : Handle => α

/-- What a change may do to a book. -/
inductive Book.Serves : Book α → Change ε α → Event ε α → Book α → Prop where
  | inserted {m : Book α} {h : Handle} (value : α) (fresh : h ∉ m) :
      Serves m (.insert value) (.issued h) (m.insert h value)
  | made {m : Book α} {h : Handle} {make : Handle → Except ε α} {value : α} (fresh : h ∉ m)
      (made : make h = .ok value) :
      Serves m (.insertWith make) (.issued h) (m.insert h value)
  | refused {m : Book α} {h : Handle} {make : Handle → Except ε α} {cause : ε} (fresh : h ∉ m)
      (refused : make h = .error cause) : Serves m (.insertWith make) (.refused cause) m
  | removed {m : Book α} {h : Handle} {value : α} (found : m.lookup h = some value) :
      Serves m (.remove h) (.removed h value) (m.erase h)
  | missed {m : Book α} {h : Handle} (absent : h ∉ m) : Serves m (.remove h) (.missed h) m

/-- What a history may do to a book. -/
inductive Book.Traces : Book α → List (Change ε α) → List (Event ε α) → Book α → Prop where
  | nil (m : Book α) : Traces m [] [] m
  | cons {m n k : Book α} {c : Change ε α} {event : Event ε α} {changes : List (Change ε α)}
      {events : List (Event ε α)} (first : Serves m c event n) (rest : Traces n changes events k) :
      Traces m (c :: changes) (event :: events) k

/-- All that can be asked of a registry is answered as by a book. -/
structure Represents (r : Registry α) (m : Book α) : Prop where
  get? : ∀ h, r.get? h = m.lookup h
  contains : ∀ h, r.contains h = true ↔ h ∈ m
  remove : ∀ h, (r.remove h).map (·.1) = m.lookup h
  mem_toList : ∀ h value, (h, value) ∈ r.toList ↔ m.lookup h = some value
  ascending : r.toList.Pairwise fun x y => x.1.index < y.1.index
  size : r.size = m.keys.card

/-! ## Entries -/

theorem mem_entriesFrom {index : Nat} {slots : List (Slot α)} :
    (h, value) ∈ entriesFrom index slots ↔
      ∃ i, slots[i]? = some ⟨h.generation, some value⟩ ∧ h.index = UInt32.ofNat (index + i) := by
  induction slots generalizing index with
  | nil => simp [entriesFrom]
  | cons slot rest ih =>
    have hsplit : (∃ i, (slot :: rest)[i]? = some ⟨h.generation, some value⟩ ∧
          h.index = UInt32.ofNat (index + i)) ↔
        (slot = ⟨h.generation, some value⟩ ∧ h.index = UInt32.ofNat index) ∨
          (h, value) ∈ entriesFrom (index + 1) rest := by
      rw [ih]
      constructor
      · rintro ⟨i, hslot, hindex⟩
        cases i with
        | zero => exact .inl ⟨Option.some.inj hslot, hindex⟩
        | succ i => exact .inr ⟨i, hslot, by rw [hindex, Nat.add_right_comm, Nat.add_assoc]⟩
      · rintro (⟨hslot, hindex⟩ | ⟨i, hslot, hindex⟩)
        · exact ⟨0, congrArg some hslot, hindex⟩
        · exact ⟨i + 1, hslot, by rw [hindex, Nat.add_right_comm, Nat.add_assoc]⟩
    rw [hsplit]
    obtain ⟨generation, held⟩ := slot
    obtain ⟨k, g⟩ := h
    cases held with
    | none => simp [entriesFrom]
    | some v =>
      simp only [entriesFrom, List.mem_cons, Prod.mk.injEq, Handle.mk.injEq, Slot.mk.injEq,
        Option.some.injEq]
      refine or_congr_left ⟨?_, ?_⟩
      · rintro ⟨⟨hindex, hgeneration⟩, hvalue⟩
        exact ⟨⟨hgeneration.symm, hvalue.symm⟩, hindex⟩
      · rintro ⟨⟨hgeneration, hvalue⟩, hindex⟩
        exact ⟨⟨hindex, hgeneration.symm⟩, hvalue.symm⟩

theorem ascending_entriesFrom {index : Nat} {slots : List (Slot α)}
    (hroom : index + slots.length ≤ UInt32.size) :
    (entriesFrom index slots).Pairwise fun x y => x.1.index < y.1.index := by
  induction slots generalizing index with
  | nil => exact .nil
  | cons slot rest ih =>
    rw [List.length_cons] at hroom
    have hroom' : index + 1 + rest.length ≤ UInt32.size := by omega
    have hrest := ih hroom'
    unfold entriesFrom
    split
    · refine List.pairwise_cons.mpr ⟨?_, hrest⟩
      rintro ⟨k, v⟩ hmem
      obtain ⟨i, hslot, hindex⟩ := mem_entriesFrom.mp hmem
      have hlt : i < rest.length := (List.getElem?_eq_some_iff.mp hslot).1
      rw [hindex, UInt32.lt_iff_toNat_lt, UInt32.toNat_ofNat_of_lt' (by omega),
        UInt32.toNat_ofNat_of_lt' (by omega)]
      omega
    · exact hrest

/-- The entries are what can be looked up. -/
theorem mem_toList_iff (hroom : r.slots.size ≤ UInt32.size) :
    (h, value) ∈ r.toList ↔ r.get? h = some value := by
  rw [toList, mem_entriesFrom, get?_eq_some_iff]
  simp only [Nat.zero_add, Array.getElem?_toList]
  constructor
  · rintro ⟨i, hslot, hindex⟩
    have hlt := (Array.getElem?_eq_some_iff.mp hslot).1
    rw [hindex, UInt32.toNat_ofNat_of_lt' (by omega)]
    exact hslot
  · intro hslot
    exact ⟨h.index.toNat, hslot, UInt32.ofNat_toNat.symm⟩

/-- A table that answers look-ups as a book does answers everything else so, too. -/
theorem WellFormed.represents {m : Book α} (hr : r.WellFormed)
    (hroom : r.slots.size ≤ UInt32.size) (hget : ∀ h, r.get? h = m.lookup h) :
    r.Represents m := by
  have hascending : r.toList.Pairwise fun x y => x.1.index < y.1.index :=
    ascending_entriesFrom (by rw [Nat.zero_add, Array.length_toList]; exact hroom)
  have hmem : ∀ h value, (h, value) ∈ r.toList ↔ m.lookup h = some value := by
    intro h value
    rw [mem_toList_iff hroom, hget]
  refine ⟨hget, ?_, ?_, hmem, hascending, ?_⟩
  · intro h
    rw [contains_iff, hget, Finmap.mem_iff]
  · intro h
    rw [← hget]
    cases hfound : r.get? h with
    | none => rw [remove_of_none hfound, Option.map_none]
    | some value => rw [remove_of_some hfound, Option.map_some]
  · -- the handles are distinct, and they are the keys of the book
    have hnodup : r.handles.Nodup := by
      refine List.pairwise_map.mpr (hascending.imp fun hlt heq => ?_)
      rw [heq] at hlt
      exact UInt32.lt_irrefl _ hlt
    have hkeys : m.keys = r.handles.toFinset := by
      ext k
      rw [Finmap.mem_keys, Finmap.mem_iff, List.mem_toFinset, handles, List.mem_map]
      constructor
      · rintro ⟨value, hlookup⟩
        exact ⟨(k, value), (hmem k value).mpr hlookup, rfl⟩
      · rintro ⟨⟨k', value⟩, hlisted, rfl⟩
        exact ⟨value, (hmem k' value).mp hlisted⟩
    rw [hr.size_eq_length_handles, hkeys, List.toFinset_card_of_nodup hnodup]

/-! ## Changes -/

theorem get?_insert {m : Book α} (hr : r.WellFormed) (hroom : r.slots.size < UInt32.size)
    (hget : ∀ h, r.get? h = m.lookup h) (value : α) (h : Handle) :
    (r.insert value).get? h = (m.insert r.nextHandle value).lookup h := by
  by_cases hnext : h = r.nextHandle
  · rw [hnext, get?_insert_nextHandle hr hroom, Finmap.lookup_insert]
  · rw [get?_insert_of_ne hr hnext, Finmap.lookup_insert_of_ne _ hnext, hget]

theorem get?_erase {m : Book α} (hget : ∀ h, r.get? h = m.lookup h) (k h : Handle) :
    (r.erase k).get? h = (m.erase k).lookup h := by
  by_cases hk : h = k
  · rw [hk, get?_erase_self, Finmap.lookup_erase]
  · rw [get?_erase_of_ne hk, Finmap.lookup_erase_ne hk, hget]

/-- **One change.** What happens to a table may happen to the book that it answers for. -/
theorem Passes.serves {m : Book α} {c : Change ε α} {event : Event ε α} (h : r.Passes c event t)
    (hr : r.WellFormed) (hroom : r.slots.size < UInt32.size)
    (hget : ∀ h, r.get? h = m.lookup h) :
    ∃ n : Book α, Book.Serves m c event n ∧ ∀ h, t.get? h = n.lookup h := by
  have hfresh : r.nextHandle ∉ m := by
    rw [← Finmap.lookup_eq_none, ← hget]
    exact hr.get?_nextHandle hroom
  cases h with
  | inserted value => exact ⟨_, .inserted value hfresh, get?_insert hr hroom hget value⟩
  | made made => exact ⟨_, .made hfresh made, get?_insert hr hroom hget _⟩
  | refused refused => exact ⟨m, .refused hfresh refused, hget⟩
  | removed found =>
    rw [hget] at found
    exact ⟨_, .removed found, get?_erase hget _⟩
  | missed absent =>
    rw [hget, Finmap.lookup_eq_none] at absent
    exact ⟨m, .missed absent, hget⟩

/-- **Histories.** -/
theorem exists_traces {m : Book α} {changes : List (Change ε α)} (hr : r.WellFormed)
    (hroom : (r.changeAll changes).2.slots.size < UInt32.size)
    (hget : ∀ h, r.get? h = m.lookup h) :
    ∃ n : Book α, Book.Traces m changes (r.changeAll changes).1 n ∧
      ∀ h, (r.changeAll changes).2.get? h = n.lookup h := by
  induction changes generalizing r m with
  | nil => exact ⟨m, .nil m, hget⟩
  | cons c rest ih =>
    have hpasses := passes_change r c
    have hsize : r.slots.size < UInt32.size :=
      Nat.lt_of_le_of_lt (size_slots_le_changeAll r (c :: rest)) hroom
    obtain ⟨n, hserves, hn⟩ := hpasses.serves hr hsize hget
    obtain ⟨k, htraces, hk⟩ := ih (hpasses.wellFormed hr) hroom hn
    exact ⟨k, .cons hserves htraces, hk⟩

theorem Passes.generation_ne_zero {c : Change ε α} {event : Event ε α}
    (hpasses : r.Passes c event t) (hr : r.WellFormed) (hissued : event = .issued h) :
    h.generation ≠ 0 := by
  cases hpasses with
  | inserted | made =>
    cases hissued
    exact hr.generation_nextHandle_ne_zero
  | refused | removed | missed => cases hissued

theorem generation_ne_zero_of_issued {changes : List (Change ε α)} (hr : r.WellFormed)
    (hissued : .issued h ∈ (r.changeAll changes).1) : h.generation ≠ 0 := by
  induction changes generalizing r with
  | nil => cases hissued
  | cons c rest ih =>
    have hpasses := passes_change r c
    rw [changeAll_cons] at hissued
    rcases List.mem_cons.mp hissued with heq | hissued
    · exact hpasses.generation_ne_zero hr heq.symm
    · exact ih (hpasses.wellFormed hr) hissued

/-- **A registry is a finite map.** Take any history of a new registry after which it has fewer
slots than there are indices. Its list of vacant slots holds each of them once, its size is the
number of the others, and no slot is in generation zero. The history is one of a finite map, for
which the registry answers. The next handle is not in use; a maker is asked about this handle, and
if it refuses, the table stays as it is and the handle remains the next one. The handles that have
been given out can be packed into words other than zero and back, and the handle of contexts that
are not registered leads nowhere. -/
theorem history_is_finite_map (changes : List (Change ε α))
    (hroom : ((empty : Registry α).changeAll changes).2.slots.size < UInt32.size) :
    let events := ((empty : Registry α).changeAll changes).1
    let r := ((empty : Registry α).changeAll changes).2
    (r.vacant.Nodup ∧ (∀ i, i ∈ r.vacant ↔ ∃ generation, r.slots[i]? = some ⟨generation, none⟩) ∧
      r.size = r.slots.countP (·.value.isSome) ∧ ∀ slot ∈ r.slots, 1 ≤ slot.generation.toNat) ∧
    (∃ m : Book α, Book.Traces ∅ changes events m ∧ r.Represents m ∧
      ∃ offered, offered ∉ m ∧
        (∀ value, (r.change (.insert value : Change ε α)).1 = .issued offered) ∧
        ∀ make : Handle → Except ε α, r.change (.insertWith make) =
          match make offered with
          | .ok value => r.change (.insert value)
          | .error cause => (.refused cause, r)) ∧
    (∀ h, .issued h ∈ events → h.toRaw ≠ 0 ∧ Handle.ofRaw? h.toRaw = some h) ∧
    (∀ raw h, Handle.ofRaw? raw = some h → h.toRaw = raw) ∧
    r.get? .detached = none ∧ r.contains .detached = false ∧ r.remove .detached = none := by
  intro events r
  have hr : r.WellFormed := wellFormed_changeAll wellFormed_empty changes
  have hempty : ∀ h, (empty : Registry α).get? h = (∅ : Book α).lookup h := by
    intro h
    rw [Finmap.lookup_empty]
    rfl
  obtain ⟨m, htraces, hget⟩ := exists_traces wellFormed_empty hroom hempty
  have hdetached := hr.get?_detached
  refine ⟨⟨hr.nodup, hr.vacant, hr.size, ?_⟩, ⟨m, htraces, ?_, ?_⟩, ?_, ?_, hdetached, ?_, ?_⟩
  · intro slot hslot
    obtain ⟨i, hi⟩ := Array.mem_iff_getElem?.mp hslot
    have hpositive := hr.positive i slot hi
    have hne : slot.generation.toNat ≠ 0 := fun hzero => hpositive (UInt32.toNat_inj.mp hzero)
    omega
  · exact hr.represents (Nat.le_of_lt hroom) hget
  · refine ⟨r.nextHandle, ?_, fun value => rfl, change_insertWith r⟩
    rw [← Finmap.lookup_eq_none, ← hget]
    exact hr.get?_nextHandle hroom
  · intro h hissued
    have hgeneration := generation_ne_zero_of_issued wellFormed_empty hissued
    exact ⟨Handle.toRaw_ne_zero hgeneration, Handle.ofRaw?_toRaw hgeneration⟩
  · intro raw h hraw
    exact Handle.toRaw_of_ofRaw? hraw
  · exact contains_eq_false_iff.mpr hdetached
  · exact remove_of_none hdetached

/-- Two values are inserted, a third is refused, and the first one is removed. Its slot is used
again, and its handle is used once more. -/
def reusing : List (Change String Nat) :=
  [.insert 10, .insert 20, .insertWith fun _ => .error "no", .remove ⟨0, 1⟩,
    .insertWith fun h => .ok h.generation.toNat, .remove ⟨0, 1⟩]

theorem reusing_is_finite_map :
    ((empty : Registry Nat).changeAll reusing).1 =
      [.issued ⟨0, 1⟩, .issued ⟨1, 1⟩, .refused "no", .removed ⟨0, 1⟩ 10, .issued ⟨0, 2⟩,
        .missed ⟨0, 1⟩] ∧
    ∃ m : Book Nat, Book.Traces ∅ reusing ((empty : Registry Nat).changeAll reusing).1 m ∧
      m.lookup ⟨0, 2⟩ = some 2 ∧ m.lookup ⟨1, 1⟩ = some 20 ∧ m.lookup ⟨0, 1⟩ = none ∧
      m.keys.card = 2 := by
  have hroom : ((empty : Registry Nat).changeAll reusing).2.slots.size < UInt32.size := by decide
  obtain ⟨_, ⟨m, htraces, hrepresents, _⟩, _⟩ := history_is_finite_map reusing hroom
  refine ⟨by decide, m, htraces, ?_, ?_, ?_, ?_⟩
  · rw [← hrepresents.get?]
    decide
  · rw [← hrepresents.get?]
    decide
  · rw [← hrepresents.get?]
    decide
  · rw [← hrepresents.size]
    decide

end Hostcall.Registry
