import Hostcall.Proofs.Machine.Bounds

/-!
# Values that are copied to the stack

A tuple and a call take values by their addresses and copy them side by side to the top of the
stack. The block grows value by value, and each part of it is filled with zeros before its value
is copied. As long as no value lies where the block will be, nothing of this shows in the end:
the block is what the values were before (`copyToStack_of_apart`).

* `Arena.copy_pushed`: whatever is reserved, zeroed and copied on the stack makes an arena with
  bytes put on top of its stack (`Arena.pushed`).
* `layFrame_of_apart`: the frame of a call and the stack after it.
* `operands_are_copied_in_order`: which instructions succeed and what they leave.
-/

namespace Hostcall

open Attempt

namespace Arena

variable {stackSize memorySize size : Nat} {a : Arena} {bs : List UInt8}

/-- A value that is copied over zeros on top of the stack, from elsewhere, might as well have been
put there at once. -/
theorem copy_pushed {source : Nat} (h : a.WellFormed stackSize memorySize)
    (hfits : size ≤ a.stackFree) (hinside : source + size ≤ a.capacity)
    (hapart : ∀ x, source ≤ x → x < source + size → ¬(a.top ≤ x ∧ x < a.top + size)) :
    (a.pushed (List.replicate size 0)).copy source size a.top =
      .ok (a.pushed (Bytes.slice a.bytes source size)) := by
  have hsize := h.size_bytes
  have htop := h.le_stackFree_iff.mp hfits
  have hlength := Bytes.length_slice hinside
  have hsource : Bytes.slice (a.pushed (List.replicate size 0)).bytes source size =
      Bytes.slice a.bytes source size := by
    apply Bytes.slice_overwrite_of_disjoint
    rw [List.length_replicate]
    exact hapart
  rw [copy_of_le, hsource]
  · simp only [Arena.pushed, Arena.write, List.length_replicate, hlength]
    rw [Bytes.overwrite_overwrite]
    rw [List.length_replicate, hlength]
  · rw [bytes_pushed, Bytes.size_overwrite]
    exact hinside
  · rw [bytes_pushed, Bytes.size_overwrite]
    omega

/-! ## Values side by side -/

/-- The bytes of values, one after the other. A value is given by its address and its size. -/
def gathered (a : Arena) (values : List (Nat × UInt32)) : List UInt8 :=
  values.flatMap fun v => Bytes.slice a.bytes v.1 v.2.toNat

/-- The number of bytes of values. -/
def extent (values : List (Nat × UInt32)) : Nat := Procedure.total (values.map (·.2))

/-- The values lie inside the arena, and none of their bytes is one of those on top of the stack
that they will be copied to. -/
def Apart (a : Arena) (values : List (Nat × UInt32)) : Prop :=
  ∀ v ∈ values, v.1 + v.2.toNat ≤ a.capacity ∧
    ∀ x, v.1 ≤ x → x < v.1 + v.2.toNat → ¬(a.top ≤ x ∧ x < a.top + extent values)

variable {values rest : List (Nat × UInt32)} {value : Nat × UInt32}

@[simp] theorem extent_nil : extent [] = 0 := rfl

@[simp] theorem extent_cons (value : Nat × UInt32) (rest : List (Nat × UInt32)) :
    extent (value :: rest) = value.2.toNat + extent rest := rfl

theorem length_gathered (h : ∀ v ∈ values, v.1 + v.2.toNat ≤ a.capacity) :
    (a.gathered values).length = extent values := by
  induction values with
  | nil => rfl
  | cons value rest ih =>
    obtain ⟨hvalue, hrest⟩ := List.forall_mem_cons.mp h
    have hlength := Bytes.length_slice hvalue
    have hih := ih hrest
    simp only [gathered, List.flatMap_cons, List.length_append, extent_cons] at hih ⊢
    omega

/-- The first value is out of the way of the whole block. -/
theorem Apart.head (h : a.Apart (value :: rest)) :
    value.1 + value.2.toNat ≤ a.capacity ∧ ∀ x, value.1 ≤ x → x < value.1 + value.2.toNat →
      ¬(a.top ≤ x ∧ x < a.top + value.2.toNat) := by
  obtain ⟨hinside, hapart⟩ := h value List.mem_cons_self
  refine ⟨hinside, fun x hlow hhigh => ?_⟩
  have hx := hapart x hlow hhigh
  rw [extent_cons] at hx
  omega

/-- When the first value has been copied, the others are where they were. -/
theorem Apart.pushed (h : a.Apart (value :: rest)) (hlength : bs.length = value.2.toNat) :
    (a.pushed bs).Apart rest ∧ (a.pushed bs).gathered rest = a.gathered rest := by
  have hrest : ∀ v ∈ rest, v.1 + v.2.toNat ≤ a.capacity ∧ ∀ x, v.1 ≤ x →
      x < v.1 + v.2.toNat → ¬(a.top ≤ x ∧ x < a.top + bs.length + extent rest) := by
    intro v hv
    have hall := h v (List.mem_cons_of_mem _ hv)
    rw [extent_cons, ← Nat.add_assoc, ← hlength] at hall
    exact hall
  constructor
  · intro v hv
    obtain ⟨hinside, hapart⟩ := hrest v hv
    refine ⟨?_, fun x hlow hhigh => ?_⟩
    · rw [capacity, bytes_pushed, Bytes.size_overwrite]
      exact hinside
    · have hx := hapart x hlow hhigh
      rw [top_pushed]
      omega
  · rw [gathered, gathered, List.flatMap_def, List.flatMap_def]
    congr 1
    refine List.map_congr_left fun v hv => ?_
    obtain ⟨-, hapart⟩ := hrest v hv
    apply Bytes.slice_overwrite_of_disjoint
    intro x hlow hhigh
    have hx := hapart x hlow hhigh
    omega

/-- What an arena becomes when values are copied to the top of its stack and zeros put behind
them. -/
structure Receives (a : Arena) (values : List (Nat × UInt32)) (zeros : Nat) (b : Arena) :
    Prop where
  /-- The values stand side by side as they were before. -/
  block : Bytes.slice b.bytes a.top (extent values) = a.gathered values
  each : ∀ (i : Nat) source size, values[i]? = some (source, size) →
    Bytes.slice b.bytes (a.top + extent (values.take i)) size.toNat =
      Bytes.slice a.bytes source size.toNat
  zeroed : ∀ x, a.top + extent values ≤ x → x < a.top + extent values + zeros →
    b.bytes.data[x]? = some 0
  kept : ∀ x, x < a.top ∨ a.top + extent values + zeros ≤ x →
    b.bytes.data[x]? = a.bytes.data[x]?
  top : b.top = a.top + extent values + zeros
  heap : b.heap = a.heap
  stackSize : b.stackSize = a.stackSize
  memorySize : b.memorySize = a.memorySize

theorem gathered_split {i : Nat} {source : Nat} {size : UInt32}
    (h : values[i]? = some (source, size)) :
    a.gathered values = a.gathered (values.take i) ++ Bytes.slice a.bytes source size.toNat ++
      a.gathered (values.drop (i + 1)) := by
  obtain ⟨hi, hvalue⟩ := List.getElem?_eq_some_iff.mp h
  have hsplit : values = values.take i ++ (source, size) :: values.drop (i + 1) := by
    rw [← hvalue, List.getElem_cons_drop, List.take_append_drop]
  conv => lhs; rw [hsplit]
  simp [gathered]

theorem receives_pushed {zeros : Nat} (h : a.WellFormed stackSize memorySize)
    (hinside : ∀ v ∈ values, v.1 + v.2.toNat ≤ a.capacity)
    (hfits : extent values + zeros ≤ a.stackFree) :
    a.Receives values zeros (a.pushed (a.gathered values ++ List.replicate zeros 0)) := by
  have hsize := h.size_bytes
  have htop := h.le_stackFree_iff.mp hfits
  have hlength := length_gathered hinside
  have hroom : a.top + (a.gathered values ++ List.replicate zeros 0).length ≤ a.bytes.size := by
    rw [List.length_append, hlength, List.length_replicate]
    omega
  refine ⟨?_, ?_, ?_, ?_, ?_, rfl, rfl, rfl⟩
  · have hblock := @Bytes.slice_overwrite_middle _ _ [] (a.gathered values) _ hroom
    rw [List.nil_append, List.length_nil, Nat.add_zero, hlength] at hblock
    exact hblock
  · intro i source size hi
    have hvalue : source + size.toNat ≤ a.bytes.size := hinside _ (List.mem_of_getElem? hi)
    have hbefore : (a.gathered (values.take i)).length = extent (values.take i) :=
      length_gathered fun v hv => hinside v (List.mem_of_mem_take hv)
    rw [gathered_split hi, List.append_assoc] at hroom ⊢
    have hmiddle := Bytes.slice_overwrite_middle hroom
    rw [hbefore, Bytes.length_slice hvalue] at hmiddle
    exact hmiddle
  · intro x hlow hhigh
    rw [bytes_pushed, Bytes.overwrite_append, Bytes.getElem?_overwrite, hlength,
      List.length_replicate, Bytes.size_overwrite, if_pos (by omega),
      List.getElem?_replicate, if_pos (by omega)]
  · intro x hx
    apply Bytes.getElem?_overwrite_of_outside
    rw [List.length_append, hlength, List.length_replicate]
    omega
  · rw [top_pushed, List.length_append, hlength, List.length_replicate, Nat.add_assoc]

end Arena

/-- The values that an instruction takes from the address stack of a frame, in the order in which
their addresses were pushed. -/
def Frame.operands (f : Frame) (sizes : List UInt32) : List (Nat × UInt32) :=
  (f.addresses.take sizes.length).reverse.zip sizes

theorem Frame.extent_operands (f : Frame) {sizes : List UInt32}
    (h : sizes.length ≤ f.addresses.length) :
    Arena.extent (f.operands sizes) = Procedure.total sizes := by
  have hlen : sizes.length ≤ (f.addresses.take sizes.length).reverse.length := by
    rw [List.length_reverse, List.length_take]
    omega
  rw [Arena.extent, Frame.operands, List.map_snd_zip hlen]

namespace Machine

variable {stackSize memorySize : Nat} {a : Arena} {m : Machine} {f : Frame} {callers : List Frame}
  {p : Procedure} {values : List (Nat × UInt32)} {arguments : List Nat}

/-! ## Copying -/

/-- **The copies.** Each value is read after those before it have been copied, and yet as it was at
first. -/
theorem copyToStack_of_apart (ha : a.WellFormed stackSize memorySize) (hapart : a.Apart values)
    (hfits : Arena.extent values ≤ a.stackFree) :
    copyToStack a values = .ok (a.pushed (a.gathered values)) := by
  induction values generalizing a with
  | nil => rfl
  | cons value rest ih =>
    obtain ⟨source, size⟩ := value
    obtain ⟨hinside, hclear⟩ := hapart.head
    have hlength : (Bytes.slice a.bytes source size.toNat).length = size.toNat :=
      Bytes.length_slice hinside
    obtain ⟨hrest, hsame⟩ := hapart.pushed hlength
    have hfits' : size.toNat + Arena.extent rest ≤ a.stackFree := hfits
    have hcopies := ih (ha.pushed (by omega)) hrest (by rw [Arena.stackFree_pushed]; omega)
    rw [hsame, ← Arena.pushed_append] at hcopies
    refine bind_eq_ok_iff.mpr ⟨_, Arena.allocStack_of_le (by omega), ?_⟩
    exact bind_eq_ok_iff.mpr ⟨_, Arena.copy_pushed ha (by omega) hinside hclear, hcopies⟩

theorem allocResult_of_le (h : p.resultSize ≤ a.stackFree) :
    allocResult a p.result = .ok (p.result.map fun _ => a.top,
      a.pushed (List.replicate p.resultSize 0)) := by
  unfold Procedure.resultSize at h ⊢
  cases hresult : p.result with
  | none => rfl
  | some size =>
    rw [hresult] at h
    exact bind_eq_ok_iff.mpr ⟨_, Arena.allocStack_of_le h, rfl⟩

/-- The frame of a call whose parameters begin at an address. -/
def newFrame (index : Nat) (p : Procedure) (base : Nat) : Frame where
  procedure := index
  paramsBase := base
  result := p.result.map fun _ => base + p.paramsSize
  localsBase := base + p.paramsSize + p.resultSize

/-- The number of bytes that a call takes on the stack. -/
def frameSize (p : Procedure) : Nat := p.paramsSize + p.resultSize + p.localsSize

theorem extent_zip (hlen : arguments.length = p.params.length) :
    Arena.extent (arguments.zip p.params) = p.paramsSize := by
  rw [Arena.extent, List.map_snd_zip (Nat.le_of_eq hlen.symm)]
  rfl

/-- **The frame of a call.** -/
theorem layFrame_of_apart (index : Nat) (ha : a.WellFormed stackSize memorySize)
    (hlen : arguments.length = p.params.length) (hapart : a.Apart (arguments.zip p.params))
    (hfits : frameSize p ≤ a.stackFree) :
    layFrame a index p arguments = .ok (newFrame index p a.top,
      a.pushed (a.gathered (arguments.zip p.params) ++
        List.replicate (p.resultSize + p.localsSize) 0)) := by
  have hparams := extent_zip hlen
  have hgathered := Arena.length_gathered fun v hv => (hapart v hv).1
  unfold frameSize at hfits
  have hcopies := copyToStack_of_apart ha hapart (by omega)
  have hresult : p.resultSize ≤ (a.pushed (a.gathered (arguments.zip p.params))).stackFree := by
    rw [Arena.stackFree_pushed]
    omega
  have hlocals : p.localsSize ≤ ((a.pushed (a.gathered (arguments.zip p.params))).pushed
      (List.replicate p.resultSize 0)).stackFree := by
    rw [Arena.stackFree_pushed, Arena.stackFree_pushed, List.length_replicate]
    omega
  refine bind_eq_ok_iff.mpr ⟨_, hcopies, ?_⟩
  refine bind_eq_ok_iff.mpr ⟨_, allocResult_of_le hresult, ?_⟩
  refine bind_eq_ok_iff.mpr ⟨_, Arena.allocStack_of_le hlocals, ?_⟩
  rw [← List.replicate_append_replicate, Arena.pushed_append, Arena.pushed_append]
  simp only [Arena.top_pushed, hgathered, hparams, List.length_replicate]
  rfl

/-! ## Instructions -/

theorem popMany_of_le {count : Nat} (h : count ≤ f.addresses.length) (position : Nat) :
    f.popMany count position = .ok ((f.addresses.take count).reverse,
      { f with addresses := f.addresses.drop count }) := if_pos h

theorem length_le_of_popMany {count position : Nat} {r : List Nat × Frame}
    (h : f.popMany count position = .ok r) :
    count ≤ f.addresses.length ∧ r.1.length = count := by
  unfold Frame.popMany at h
  split at h
  · rename_i hcount
    cases h
    rw [List.length_reverse, List.length_take]
    exact ⟨hcount, Nat.min_eq_left hcount⟩
  · cases h

/-- A tuple succeeds if its values can be taken and there is room for them. -/
theorem At.tuple_of_apart {sizes : List UInt32} (hat : m.At f callers p (.tuple sizes))
    (ha : m.arena.WellFormed stackSize memorySize) (hcount : sizes.length ≤ f.addresses.length)
    (hapart : m.arena.Apart (f.operands sizes))
    (hfits : Procedure.total sizes ≤ m.arena.stackFree) :
    m.step = .ok (.next { m with
      arena := m.arena.pushed (m.arena.gathered (f.operands sizes))
      frames := { f with
        position := f.position + 1
        addresses := m.arena.top :: f.addresses.drop sizes.length } :: callers }) := by
  have hextent := f.extent_operands hcount
  have hcopies := copyToStack_of_apart ha hapart (by omega)
  have hpop := popMany_of_le (f := { f with position := f.position + 1 }) hcount f.position
  rw [hat.step_eq]
  refine bind_eq_ok_iff.mpr ⟨_, hpop, ?_⟩
  exact bind_eq_ok_iff.mpr ⟨_, ofArena_eq_ok_iff.mpr hcopies, rfl⟩

/-- A tuple succeeds only then. -/
theorem At.fits_of_tuple {sizes : List UInt32} {e : Effect} (hat : m.At f callers p (.tuple sizes))
    (ha : m.arena.WellFormed stackSize memorySize) (h : m.step = .ok e) :
    sizes.length ≤ f.addresses.length ∧ Procedure.total sizes ≤ m.arena.stackFree := by
  rw [hat.step_eq] at h
  obtain ⟨⟨sources, g⟩, hpop, h⟩ := bind_eq_ok_iff.mp h
  obtain ⟨b, hcopy, -⟩ := bind_eq_ok_iff.mp h
  obtain ⟨hcount, hlength⟩ := length_le_of_popMany hpop
  replace hcopy := ofArena_eq_ok_iff.mp hcopy
  have htop := top_of_copyToStack hcopy
  have hb := ((meets_wellFormed_copyToStack ha _).ok hcopy).top_le
  rw [htop, List.map_snd_zip (Nat.le_of_eq hlength.symm)] at hb
  exact ⟨hcount, ha.le_stackFree_iff.mpr hb⟩

/-- A call succeeds if there is a procedure and another call is allowed, its arguments can be taken
and there is room for its frame. -/
theorem At.call_of_apart {index : UInt32} {callee : Procedure}
    (hat : m.At f callers p (.call index)) (ha : m.arena.WellFormed stackSize memorySize)
    (hcallee : m.program.procedures[index.toNat]? = some callee)
    (hdepth : m.frames.length < m.depthLimit)
    (hcount : callee.params.length ≤ f.addresses.length)
    (hapart : m.arena.Apart (f.operands callee.params))
    (hfits : frameSize callee ≤ m.arena.stackFree) :
    m.step = .ok (.next { m with
      arena := m.arena.pushed (m.arena.gathered (f.operands callee.params) ++
        List.replicate (callee.resultSize + callee.localsSize) 0)
      frames := newFrame index.toNat callee m.arena.top :: f.awaiting callee :: callers }) := by
  have hlen : (f.addresses.take callee.params.length).reverse.length = callee.params.length := by
    rw [List.length_reverse, List.length_take]
    exact Nat.min_eq_left hcount
  have hlay := layFrame_of_apart index.toNat ha hlen hapart hfits
  have hpop := popMany_of_le (f := { f with position := f.position + 1 }) hcount f.position
  rw [hat.frames, List.length_cons] at hdepth
  rw [hat.step_eq]
  unfold execute
  simp only [hcallee]
  rw [if_neg (by omega)]
  refine bind_eq_ok_iff.mpr ⟨_, hpop, ?_⟩
  refine bind_eq_ok_iff.mpr ⟨_, ?_, rfl⟩
  unfold enter
  simp only [hcallee]
  exact bind_eq_ok_iff.mpr ⟨_, ofArena_eq_ok_iff.mpr hlay, rfl⟩

/-- A call succeeds only then. -/
theorem At.fits_of_call {index : UInt32} {e : Effect} (hat : m.At f callers p (.call index))
    (ha : m.arena.WellFormed stackSize memorySize) (h : m.step = .ok e) :
    ∃ callee, m.program.procedures[index.toNat]? = some callee ∧
      m.frames.length < m.depthLimit ∧ callee.params.length ≤ f.addresses.length ∧
      frameSize callee ≤ m.arena.stackFree := by
  rw [hat.step_eq] at h
  unfold execute at h
  dsimp only at h
  split at h
  · cases h
  · rename_i callee hcallee
    split at h
    · cases h
    · rename_i hdepth
      obtain ⟨⟨arguments, g⟩, hpop, h⟩ := bind_eq_ok_iff.mp h
      obtain ⟨n, henter, -⟩ := bind_eq_ok_iff.mp h
      obtain ⟨hcount, hlength⟩ := length_le_of_popMany hpop
      have hn := ((sound_enter (m := { m with frames := g :: callers }) ha _ _).ok henter).top_le
      obtain ⟨inner, arena, hlay, rfl⟩ :=
        enter_eq_ok (m := { m with frames := g :: callers }) hcallee henter
      obtain ⟨hlocals, -, htop⟩ := layFrame_ends hlay hlength
      refine ⟨callee, hcallee, ?_, hcount, ha.le_stackFree_iff.mpr ?_⟩
      · rw [hat.frames, List.length_cons]
        omega
      · dsimp only at hn hlocals
        unfold frameSize
        omega

/-- What comes of putting a tuple together. -/
structure TupleCopies (m : Machine) (f : Frame) (callers : List Frame) (sizes : List UInt32) :
    Prop where
  fails_iff : (∃ fault, m.step = .error fault) ↔
    f.addresses.length < sizes.length ∨ m.arena.stackFree < Procedure.total sizes
  /-- The address of the block is pushed. -/
  copies : ∀ e, m.step = .ok e → ∃ arena,
    e = .next { m with
      arena
      frames := { f with
        position := f.position + 1
        addresses := m.arena.top :: f.addresses.drop sizes.length } :: callers } ∧
    Arena.extent (f.operands sizes) = Procedure.total sizes ∧
    m.arena.Receives (f.operands sizes) 0 arena

/-- What comes of a call. -/
structure CallCopies (m : Machine) (f : Frame) (callers : List Frame) (index : UInt32) :
    Prop where
  fails_iff : (∃ fault, m.step = .error fault) ↔
    m.program.procedures[index.toNat]? = none ∨ m.depthLimit ≤ m.frames.length ∨
      ∃ callee, m.program.procedures[index.toNat]? = some callee ∧
        (f.addresses.length < callee.params.length ∨
          m.arena.stackFree < callee.paramsSize + callee.resultSize + callee.localsSize)
  /-- The block is what the callee has as its parameters, and its result slot and its locals stand
  behind it. -/
  copies : ∀ e, m.step = .ok e → ∃ callee arena,
    m.program.procedures[index.toNat]? = some callee ∧
    e = .next { m with
      arena
      frames := newFrame index.toNat callee m.arena.top :: f.awaiting callee :: callers } ∧
    Arena.extent (f.operands callee.params) = callee.paramsSize ∧
    m.arena.Receives (f.operands callee.params) (callee.resultSize + callee.localsSize) arena ∧
    -- as long as the call is in progress, its parameters are addressed from the block on
    ∀ (k : Machine) g rest q offset, (newFrame index.toNat callee m.arena.top).SameCall g →
      k.At g rest q (.paramsAddress offset) →
      k.step = .ok (.next { k with
        frames := { g with
          position := g.position + 1
          addresses := (m.arena.top + offset.toNat) :: g.addresses } :: rest })

theorem At.tupleCopies {sizes : List UInt32} (hat : m.At f callers p (.tuple sizes))
    (ha : m.arena.WellFormed stackSize memorySize)
    (hoperands : sizes.length ≤ f.addresses.length → m.arena.Apart (f.operands sizes)) :
    m.TupleCopies f callers sizes := by
  constructor
  · rw [exists_error_iff]
    constructor
    · intro hfails
      by_cases hcount : sizes.length ≤ f.addresses.length
      · by_cases hfits : Procedure.total sizes ≤ m.arena.stackFree
        · exact absurd (hat.tuple_of_apart ha hcount (hoperands hcount) hfits) (hfails _)
        · exact .inr (Nat.lt_of_not_le hfits)
      · exact .inl (Nat.lt_of_not_le hcount)
    · intro hshort e hstep
      have hfits := hat.fits_of_tuple ha hstep
      omega
  · intro e hstep
    obtain ⟨hcount, hfits⟩ := hat.fits_of_tuple ha hstep
    have hextent := f.extent_operands hcount
    have hroom : Arena.extent (f.operands sizes) + 0 ≤ m.arena.stackFree := by omega
    have hreceives := Arena.receives_pushed ha (fun v hv => (hoperands hcount v hv).1) hroom
    rw [List.replicate_zero, List.append_nil] at hreceives
    rw [hat.tuple_of_apart ha hcount (hoperands hcount) hfits] at hstep
    cases hstep
    exact ⟨_, rfl, hextent, hreceives⟩

theorem At.callCopies {index : UInt32} (hat : m.At f callers p (.call index))
    (ha : m.arena.WellFormed stackSize memorySize)
    (hoperands : ∀ callee, m.program.procedures[index.toNat]? = some callee →
      callee.params.length ≤ f.addresses.length → m.arena.Apart (f.operands callee.params)) :
    m.CallCopies f callers index := by
  constructor
  · rw [exists_error_iff]
    constructor
    · intro hfails
      cases hcallee : m.program.procedures[index.toNat]? with
      | none => exact .inl rfl
      | some callee =>
        refine .inr ?_
        by_cases hdepth : m.frames.length < m.depthLimit
        · refine .inr ⟨callee, rfl, ?_⟩
          by_cases hcount : callee.params.length ≤ f.addresses.length
          · by_cases hfits : frameSize callee ≤ m.arena.stackFree
            · have hapart := hoperands callee hcallee hcount
              exact absurd (hat.call_of_apart ha hcallee hdepth hcount hapart hfits) (hfails _)
            · exact .inr (Nat.lt_of_not_le hfits)
          · exact .inl (Nat.lt_of_not_le hcount)
        · exact .inl (Nat.le_of_not_lt hdepth)
    · intro hrefused e hstep
      obtain ⟨callee, hcallee, hdepth, hcount, hfits⟩ := hat.fits_of_call ha hstep
      rw [hcallee] at hrefused
      rcases hrefused with hnone | hdeep | ⟨other, hother, hshort⟩
      · cases hnone
      · omega
      · cases hother
        unfold frameSize at hfits
        omega
  · intro e hstep
    obtain ⟨callee, hcallee, hdepth, hcount, hfits⟩ := hat.fits_of_call ha hstep
    have hapart := hoperands callee hcallee hcount
    have hextent : Arena.extent (f.operands callee.params) = callee.paramsSize :=
      f.extent_operands hcount
    have hroom : Arena.extent (f.operands callee.params) +
        (callee.resultSize + callee.localsSize) ≤ m.arena.stackFree := by
      unfold frameSize at hfits
      omega
    have hreceives := Arena.receives_pushed ha (fun v hv => (hapart v hv).1) hroom
    rw [hat.call_of_apart ha hcallee hdepth hcount hapart hfits] at hstep
    cases hstep
    refine ⟨callee, _, hcallee, rfl, hextent, hreceives, ?_⟩
    intro k g rest q offset hsame hk
    have hbase : g.paramsBase = m.arena.top := hsame.paramsBase
    rw [hk.step_eq, ← hbase]
    rfl

/-- **Operands.** Take any machine of any history that is about to put a tuple together or to call
a procedure, and let the values that it takes lie inside the arena and out of the way of the block
that they are copied to. If it succeeds, that block holds the values side by side in the order in
which their addresses were pushed, each as it was before. A tuple leaves the address of the block. A
call leaves a frame that has the block as its parameters, so that each of them is at the offset that
the sizes before it add up to; its result slot and its locals stand behind the block and are zero.
No other byte changes. A tuple fails if and only if there are too few addresses or too little room,
and a call if and only if there is no such procedure, there are too many calls, too few addresses or
too little room for the whole frame. -/
theorem operands_are_copied_in_order {allowed : Machine → Wish → Prop}
    (hm : m.Reachable allowed .resting) :
    (∀ f callers p sizes, m.At f callers p (.tuple sizes) →
      (sizes.length ≤ f.addresses.length → m.arena.Apart (f.operands sizes)) →
      m.TupleCopies f callers sizes) ∧
    ∀ f callers p index, m.At f callers p (.call index) →
      (∀ callee, m.program.procedures[index.toNat]? = some callee →
        callee.params.length ≤ f.addresses.length → m.arena.Apart (f.operands callee.params)) →
      m.CallCopies f callers index := by
  obtain ⟨stackSize, memorySize, ha⟩ := hm.wellFormed_arena
  constructor
  · intro f callers p sizes hat hoperands
    exact hat.tupleCopies ha hoperands
  · intro f callers p index hat hoperands
    exact hat.callCopies ha hoperands

/-- A program that calls with a value of its data, an empty value and a value of its locals. -/
def gathering : Program where
  data := [.bytes [7, 8, 9]]
  procedures := #[
    { name := "main", exported := true, locals := [2],
      code := #[.dataAddress 1, .localsAddress 1, .localsAddress 0, .call 1] },
    { name := "take", params := [2, 0, 1], result := some 1, locals := [1] }]

/-- The context before the call. -/
def gatheringBefore : Machine where
  program := gathering
  depthLimit := 4
  arena := ⟨8, 4, ⟨#[0, 0, 0, 0, 0, 0, 0, 0, 7, 8, 9, 0]⟩, 2, ⟨[⟨11, 1⟩], [⟨8, 3⟩]⟩⟩
  frames := [⟨0, 3, 0, none, 0, [0, 1, 9], []⟩]
  dataBase := some 8
  globalsBase := none

theorem reachable_gatheringBefore (allowed : Machine → Wish → Prop) :
    gatheringBefore.Reachable allowed .resting := by
  obtain ⟨m, n, hlay, henter, hsteps⟩ : ∃ m n, Context.layProgram 64 gathering 8 4 4 = .ok m ∧
      m.enter 0 [] = .ok n ∧ ∃ k l, n.step = .ok (.next k) ∧ k.step = .ok (.next l) ∧
        l.step = .ok (.next gatheringBefore) ∧ n.frames ≠ [] ∧ k.frames ≠ [] ∧ l.frames ≠ [] :=
    ⟨_, _, rfl, rfl, _, _, rfl, rfl, rfl, nofun, nofun, nofun⟩
  obtain ⟨k, l, hfirst, hsecond, hthird, hn, hk, hl⟩ := hsteps
  have hfound : Session.findEntry gathering "main" = .ok 0 := by
    simp [Session.findEntry, Program.findExported?, gathering, List.findIdx?_cons]
  have hcreated : n.Reachable allowed .resting := .create hlay hfound henter
  exact ((hcreated.next hn hfirst).next hk hsecond).next hl hthird

theorem gathering_is_copied_in_order :
    ∃ f p e arena, gatheringBefore.At f [] p (.call 1) ∧ gatheringBefore.step = .ok e ∧
      e.machine.arena = arena ∧ gatheringBefore.arena.Receives [(9, 2), (1, 0), (0, 1)] 2 arena ∧
      Bytes.slice arena.bytes 2 3 = [8, 9, 0] := by
  have hat : gatheringBefore.At ⟨0, 3, 0, none, 0, [0, 1, 9], []⟩ [] gathering.procedures[0]
      (.call 1) := ⟨rfl, rfl, rfl⟩
  have hapart : gatheringBefore.arena.Apart [(9, 2), (1, 0), (0, 1)] := by
    have htop : gatheringBefore.arena.top = 2 := rfl
    have hextent : Arena.extent [(9, 2), (1, 0), (0, 1)] = 3 := rfl
    intro v hv
    rw [htop, hextent]
    simp only [List.mem_cons, List.not_mem_nil, or_false] at hv
    rcases hv with rfl | rfl | rfl
    · exact ⟨by decide, fun x hlow _ _ => by omega⟩
    · exact ⟨by decide, fun x hlow hhigh _ => Nat.not_lt.mpr hlow hhigh⟩
    · exact ⟨by decide, fun x _ hhigh hx => Nat.not_lt.mpr hx.1 (Nat.lt_succ_of_lt hhigh)⟩
  obtain ⟨e, hstep⟩ : ∃ e, gatheringBefore.step = .ok e := ⟨_, rfl⟩
  have hreachable := reachable_gatheringBefore fun _ _ => False
  have hcopies := (operands_are_copied_in_order hreachable).2 _ _ _ _ hat
    fun callee hcallee _ => by cases hcallee; exact hapart
  obtain ⟨callee, arena, hcallee, rfl, -, hreceives, -⟩ := hcopies.copies e hstep
  cases hcallee
  exact ⟨_, _, _, arena, hat, hstep, rfl, hreceives, hreceives.block⟩

end Machine

end Hostcall
