import Hostcall.Proofs.Word.Calls

/-!
# Addresses are words

An address that a frame has in hand need not lie in the arena: an instruction adds whatever its code
says to the place that it counts from, and a cell may hold anything. It is a word all the same. The
places that instructions count from lie inside the arena, at less than `2 ^ 63`, and what is added
to them is less than `2 ^ 32`; a cell has eight bytes; and an offset that leads out of 64 bits is
refused.

* `Grounded`: what a machine notes of its arena lies inside it, and the addresses in hand are words.
  One instruction keeps it (`Grounded.step`), and so does the answer to an operation
  (`Grounded.complete`); therefore it is true of every machine (`Reachable.grounded`).
-/

namespace Hostcall

open Attempt

/-- The addresses that a frame has in hand are words. -/
def Frame.Words (f : Frame) : Prop := ∀ address ∈ f.addresses, address < UInt64.size

namespace Frame.Words

variable {f : Frame}

theorem push (hf : f.Words) {address : Nat} (h : address < UInt64.size) : (f.push address).Words :=
  List.forall_mem_cons.mpr ⟨h, hf⟩

theorem meets_pop (hf : f.Words) (position : Nat) :
    Meets (fun r => r.1 < UInt64.size ∧ r.2.Words) (fun _ => True) (f.pop position) := by
  unfold Frame.pop
  split
  · exact meets_error trivial
  · rename_i address rest hrest
    unfold Words at hf
    rw [hrest] at hf
    exact meets_ok (List.forall_mem_cons.mp hf)

theorem meets_popMany (hf : f.Words) (count position : Nat) :
    Meets (fun r => r.2.Words) (fun _ => True) (f.popMany count position) := by
  unfold Frame.popMany
  split
  · exact meets_ok fun address h => hf address (List.mem_of_mem_drop h)
  · exact meets_error trivial

end Frame.Words

theorem Arena.loadAddress_lt {a : Arena} {cell address : Nat}
    (h : a.loadAddress cell = .ok address) : address < UInt64.size := by
  obtain ⟨bs, hload, h⟩ := bind_eq_ok_iff.mp h
  cases h
  obtain ⟨hinside, rfl⟩ := Arena.loadBytes_eq_ok_iff.mp hload
  have hlength := Bytes.length_slice hinside
  have hlt := Bytes.toNat_lt (Bytes.slice a.bytes cell addressSize)
  rw [hlength] at hlt
  exact hlt

namespace Machine

variable {stackSize memorySize : Nat} {m n : Machine} {f g : Frame} {callers : List Frame}

/-- The addresses in hand are words, and what has been noted of an arena that a machine can provide
lies inside it. -/
structure Grounded (stackSize memorySize : Nat) (m : Machine) : Prop extends
    Bounded stackSize memorySize m where
  capacity_le : stackSize + memorySize ≤ Arena.maxCapacity
  dataBase : ∀ base ∈ m.dataBase, base ≤ stackSize + memorySize
  globalsBase : ∀ base ∈ m.globalsBase, base ≤ stackSize + memorySize
  words : ∀ f ∈ m.frames, f.Words

theorem Grounded.provided (hm : m.Grounded stackSize memorySize) :
    m.arena.Provided stackSize memorySize :=
  ⟨hm.sound, hm.capacity_le⟩

/-- What comes of a grounded machine is grounded if it is bounded and has words in hand. -/
theorem Grounded.of_sameSetup (hm : m.Grounded stackSize memorySize) (hsame : SameSetup m n)
    (hbounded : n.Bounded stackSize memorySize) (hwords : ∀ f ∈ n.frames, f.Words) :
    n.Grounded stackSize memorySize where
  toBounded := hbounded
  capacity_le := hm.capacity_le
  dataBase := by
    rw [hsame.dataBase]
    exact hm.dataBase
  globalsBase := by
    rw [hsame.globalsBase]
    exact hm.globalsBase
  words := hwords

/-! ## Places -/

/-- Where a frame has its parameters, its result and its locals. -/
theorem Owns.places {program : Program} (h : Owns program stackSize f) :
    f.paramsBase ≤ stackSize ∧ f.localsBase ≤ stackSize ∧ ∀ slot ∈ f.result, slot ≤ stackSize := by
  obtain ⟨p, _, hinside⟩ := h
  have hblock := hinside.block
  have hlocals := hinside.fits.locals
  refine ⟨by omega, by omega, ?_⟩
  rw [hinside.fits.result]
  rintro slot hslot
  obtain ⟨_, _, rfl⟩ := Option.map_eq_some_iff.mp hslot
  omega

/-- A place in the arena is a word, also after an offset of 32 bits has been added to it. -/
theorem Grounded.place_lt (hm : m.Grounded stackSize memorySize) {base : Nat}
    (hbase : base ≤ stackSize + memorySize) (offset : UInt32) :
    base + offset.toNat < UInt64.size := by
  have hlt := hm.provided.capacity_lt
  have hoffset := offset.toNat_lt
  have hsize : UInt64.size = 2 * 2 ^ 63 := rfl
  omega

theorem Grounded.stack_lt (hm : m.Grounded stackSize memorySize) {place : Nat}
    (hplace : place ≤ stackSize) : place < UInt64.size := by
  have hword := hm.provided.capacity_word
  omega

theorem Grounded.cons (hm : m.Grounded stackSize memorySize) (hframes : m.frames = f :: callers) :
    f.Words ∧ ∀ g ∈ callers, g.Words := by
  have hall := hm.words
  rw [hframes] at hall
  exact List.forall_mem_cons.mp hall

/-! ## Returning -/

theorem words_leave (hwords : ∀ f ∈ m.frames, f.Words)
    (hbases : ∀ f ∈ m.frames, f.paramsBase < UInt64.size) :
    Meets (fun n => ∀ f ∈ n.frames, f.Words) (fun _ => True) m.leave := by
  unfold leave
  split
  · exact meets_error trivial
  · rename_i f callers hframes
    rw [hframes] at hwords hbases
    obtain ⟨_, hcallers⟩ := List.forall_mem_cons.mp hwords
    have hbase := hbases f List.mem_cons_self
    have hresult : Meets (fun r => ∀ address ∈ r.1, address < UInt64.size) (fun _ => True)
        (Fault.ofArena (clearFrame m.arena f (m.resultSize f))) := by
      refine meets_of ?_ fun _ _ => trivial
      intro r hr
      replace hr := ofArena_eq_ok_iff.mp hr
      unfold clearFrame at hr
      split at hr
      · obtain ⟨_, _, hr⟩ := bind_eq_ok_iff.mp hr
        obtain ⟨_, _, hr⟩ := bind_eq_ok_iff.mp hr
        cases hr
        rintro _ ⟨⟩
        exact hbase
      · obtain ⟨_, _, hr⟩ := bind_eq_ok_iff.mp hr
        cases hr
        exact nofun
    refine meets_bind hresult fun ⟨result, arena⟩ hresult => meets_pure ?_
    cases callers with
    | nil => exact nofun
    | cons g rest =>
      obtain ⟨hg, hrest⟩ := List.forall_mem_cons.mp hcallers
      cases result with
      | none => exact hcallers
      | some address => exact List.forall_mem_cons.mpr ⟨hg.push (hresult address rfl), hrest⟩

theorem Grounded.leave (hm : m.Grounded stackSize memorySize) (h : m.leave = .ok n) :
    n.Grounded stackSize memorySize := by
  have hwords := words_leave hm.words fun f hf => hm.stack_lt (hm.frames f hf).places.1
  refine hm.of_sameSetup ((sameSetup_leave m).ok h) ?_ (hwords.ok h)
  cases hframes : m.frames with
  | nil =>
    unfold Machine.leave at h
    rw [hframes] at h
    cases h
  | cons f callers =>
    obtain ⟨k, hk, hbounded, _⟩ := hm.toBounded.leave hframes
    cases hk.symm.trans h
    exact hbounded

theorem Grounded.unwind (hm : m.Grounded stackSize memorySize) {outer : List Frame}
    (h : unwind outer m = .ok n) : n.Grounded stackSize memorySize := by
  induction outer generalizing m with
  | nil =>
    cases h
    exact hm
  | cons _ outer ih =>
    unfold Machine.unwind at h
    split at h
    · cases h
      exact hm
    · split at h
      · cases h
        exact hm
      · obtain ⟨k, hleave, h⟩ := bind_eq_ok_iff.mp h
        exact ih (hm.leave hleave) h

/-! ## Instructions -/

/-- The addresses in hand after an instruction and the slot of an operation are words. -/
def Effect.Words : Effect → Prop
  | .next m => ∀ f ∈ m.frames, f.Words
  | .dispatch m d => (∀ f ∈ m.frames, f.Words) ∧ ∀ slot ∈ d.slot, slot < UInt64.size

theorem words_displace (a : Arena) (address distance : Nat) :
    Meets (· < UInt64.size) (fun _ => True) (displace a address distance) := by
  unfold displace
  split
  · rename_i hlt
    exact meets_ok hlt
  · exact meets_error trivial

theorem words_jump (hg : g.Words) (p : Procedure) (target : Nat) :
    Meets Frame.Words (fun _ => True) (jump p g target) := by
  unfold jump
  split
  · exact meets_ok hg
  · exact meets_error trivial

theorem words_dispatch (hm : m.Grounded stackSize memorySize) (hg : g.Words)
    (hcallers : ∀ g ∈ callers, g.Words) (position op result : Nat) :
    Meets Effect.Words (fun _ => True) (m.dispatch g callers position op result) := by
  unfold dispatch
  split
  · exact meets_error trivial
  · split
    · exact meets_error trivial
    · refine meets_of ?_ fun _ _ => trivial
      intro e h
      obtain ⟨⟨slot, arena⟩, hslot, h⟩ := bind_eq_ok_iff.mp h
      cases h
      refine ⟨List.forall_mem_cons.mpr ⟨hg, hcallers⟩, ?_⟩
      unfold allocSlot at hslot
      split at hslot
      · obtain ⟨⟨address, b⟩, halloc, hslot⟩ := bind_eq_ok_iff.mp hslot
        cases hslot
        obtain ⟨_, rfl, _⟩ := Arena.allocStack_eq_ok (ofArena_eq_ok_iff.mp halloc)
        rintro _ ⟨⟩
        exact hm.stack_lt hm.sound.top_le
      · cases hslot
        exact nofun

theorem words_call (hg : g.Words) (hcallers : ∀ g ∈ callers, g.Words) (p : Procedure)
    (position : Nat) (index : UInt32) :
    Meets Effect.Words (fun _ => True) (m.execute p g callers position (.call index)) := by
  unfold execute
  dsimp only
  split
  · exact meets_error trivial
  · rename_i callee hcallee
    split
    · exact meets_error trivial
    · refine meets_of ?_ fun _ _ => trivial
      intro e h
      obtain ⟨⟨arguments, k⟩, hpop, h⟩ := bind_eq_ok_iff.mp h
      obtain ⟨n, henter, h⟩ := bind_eq_ok_iff.mp h
      cases h
      have hk : k.Words := (hg.meets_popMany _ _).ok hpop
      obtain ⟨inner, arena, hlay, rfl⟩ :=
        enter_eq_ok (m := { m with frames := k :: callers }) hcallee henter
      have hinner : inner.Words := by
        obtain ⟨_, _, hlay⟩ := bind_eq_ok_iff.mp hlay
        obtain ⟨_, _, hlay⟩ := bind_eq_ok_iff.mp hlay
        obtain ⟨_, _, hlay⟩ := bind_eq_ok_iff.mp hlay
        cases hlay
        exact nofun
      exact List.forall_mem_cons.mpr ⟨hinner, List.forall_mem_cons.mpr ⟨hk, hcallers⟩⟩

/-- **One instruction.** -/
theorem words_execute (hm : m.Grounded stackSize memorySize) (hframes : m.frames = f :: callers)
    (hplace : SamePlace f g) (hg : g.Words) (p : Procedure) (position : Nat) (i : Instruction) :
    Meets Effect.Words (fun _ => True) (m.execute p g callers position i) := by
  obtain ⟨hf, hcallers⟩ := hm.toBounded.cons hframes
  obtain ⟨hparams, hlocals, hresult⟩ := (hf.samePlace hplace).places
  obtain ⟨_, hwords⟩ := hm.cons hframes
  have hnext : ∀ {k : Frame} {arena : Arena}, k.Words →
      Effect.Words (.next { m with arena, frames := k :: callers }) := fun hk =>
    List.forall_mem_cons.mpr ⟨hk, hwords⟩
  cases i with
  | dataAddress offset =>
    unfold execute
    dsimp only
    split
    · exact meets_error trivial
    · rename_i base hbase
      exact meets_ok (hnext (hg.push (hm.place_lt (hm.dataBase base hbase) offset)))
  | paramsAddress offset =>
    exact meets_ok (hnext (hg.push (hm.place_lt (by omega) offset)))
  | resultAddress =>
    unfold execute
    dsimp only
    split
    · exact meets_error trivial
    · rename_i slot hslot
      exact meets_ok (hnext (hg.push (hm.stack_lt (hresult slot hslot))))
  | localsAddress offset =>
    unfold execute
    dsimp only
    split
    · exact meets_error trivial
    · exact meets_ok (hnext (hg.push (hm.place_lt (by omega) offset)))
  | globalsAddress offset =>
    unfold execute
    dsimp only
    split
    · exact meets_error trivial
    · rename_i base hbase
      exact meets_ok (hnext (hg.push (hm.place_lt (hm.globalsBase base hbase) offset)))
  | offset distance =>
    exact meets_bind (hg.meets_pop _) fun _ hk => meets_bind (words_displace _ _ _) fun _ hlt =>
      meets_pure (hnext (hk.2.push hlt))
  | reference =>
    refine meets_bind (hg.meets_pop _) fun _ hk => meets_of ?_ fun _ _ => trivial
    intro e h
    obtain ⟨⟨cell, arena⟩, hpush, h⟩ := bind_eq_ok_iff.mp h
    cases h
    obtain ⟨⟨top, b⟩, halloc, hpush⟩ := bind_eq_ok_iff.mp (ofArena_eq_ok_iff.mp hpush)
    cases hpush
    obtain ⟨_, rfl, _⟩ := Arena.allocStack_eq_ok halloc
    exact hnext (hk.2.push (hm.stack_lt hm.sound.top_le))
  | dereference =>
    refine meets_bind (hg.meets_pop _) fun _ hk => meets_of ?_ fun _ _ => trivial
    intro e h
    obtain ⟨address, hload, h⟩ := bind_eq_ok_iff.mp h
    cases h
    exact hnext (hk.2.push (Arena.loadAddress_lt (ofArena_eq_ok_iff.mp hload)))
  | tuple sizes =>
    exact meets_bind (hg.meets_popMany _ _) fun _ hk => meets_bind (meets_any _) fun _ _ =>
      meets_pure (hnext (hk.push (hm.stack_lt hm.sound.top_le)))
  | copy size =>
    exact meets_bind (hg.meets_pop _) fun _ hk => meets_bind (hk.2.meets_pop _) fun _ hk' =>
      meets_bind (meets_any _) fun _ _ => meets_pure (hnext hk'.2)
  | opBegin => exact meets_ok (hnext hg)
  | param | target =>
    refine meets_bind (hg.meets_pop _) fun _ hk => meets_of ?_ fun _ _ => trivial
    intro e h
    obtain ⟨k, hamend, h⟩ := bind_eq_ok_iff.mp h
    cases h
    unfold amend at hamend
    split at hamend
    · cases hamend
    · cases hamend
      exact hnext hk.2
  | opEnd op result => exact words_dispatch hm hg hwords _ _ _
  | call index => exact words_call hg hwords p position index
  | jump target =>
    exact meets_bind (words_jump hg p _) fun _ hk => meets_pure (hnext hk)
  | branchIf target =>
    refine meets_bind (hg.meets_pop _) fun _ hk => meets_bind (meets_any _) fun _ _ => ?_
    dsimp only
    split
    · exact meets_pure (hnext hk.2)
    · exact meets_bind (words_jump hk.2 p _) fun _ hk => meets_pure (hnext hk)
  | ret =>
    refine meets_bind (words_leave (m := { m with frames := g :: callers }) ?_ ?_) fun _ hn =>
      meets_pure hn
    · exact List.forall_mem_cons.mpr ⟨hg, hwords⟩
    · refine List.forall_mem_cons.mpr ⟨hm.stack_lt hparams, fun k hk => ?_⟩
      exact hm.stack_lt (hcallers k hk).places.1

/-- **One step.** -/
theorem Grounded.step {e : Effect} (hm : m.Grounded stackSize memorySize) (h : m.step = .ok e)
    (hne : m.frames ≠ []) : e.machine.Grounded stackSize memorySize ∧ e.Words := by
  have hwords : e.Words := by
    obtain ⟨f, callers, hframes⟩ := List.exists_cons_of_ne_nil hne
    unfold Machine.step at h
    rw [hframes] at h
    dsimp only at h
    split at h
    · cases h
    · split at h
      · obtain ⟨n, hleave, h⟩ := bind_eq_ok_iff.mp h
        cases h
        exact (hm.leave hleave).words
      · have hplace : SamePlace f { f with position := f.position + 1 } := samePlace_with f _ _
        exact (words_execute hm hframes hplace (hm.cons hframes).1 _ _ _).ok h
  refine ⟨hm.of_sameSetup (sameSetup_step h) (hm.toBounded.step h hne).1 ?_, hwords⟩
  cases e with
  | next => exact hwords
  | dispatch => exact hwords.1

/-! ## After an operation -/

/-- If a machine waits for the answer to an operation, the slot of the operation is a word. -/
def SlotIn : Stage → Prop
  | .resting => True
  | .handling d _ => ∀ slot ∈ d.slot, slot < UInt64.size

theorem words_closeOperation {d : Dispatch} {control : Control} (hwords : ∀ f ∈ m.frames, f.Words)
    (hslot : SlotIn (.handling d control)) :
    Meets (fun n => ∀ f ∈ n.frames, f.Words) (fun _ => True) (m.closeOperation d) := by
  unfold closeOperation
  split
  · rename_i slot hsome
    split
    · exact meets_error trivial
    · rename_i f callers hframes
      rw [hframes] at hwords
      obtain ⟨hf, hcallers⟩ := List.forall_mem_cons.mp hwords
      exact meets_ok (List.forall_mem_cons.mpr ⟨hf.push (hslot slot hsome), hcallers⟩)
  · exact meets_bind (meets_any _) fun _ _ => meets_pure hwords

theorem words_redirect (hwords : ∀ f ∈ m.frames, f.Words) (position scratch : Nat) :
    Meets (fun n => ∀ f ∈ n.frames, f.Words) (fun _ => True) (m.redirect position scratch) := by
  unfold redirect
  split
  · exact meets_error trivial
  · rename_i f callers hframes
    rw [hframes] at hwords
    have hcallers := (List.forall_mem_cons.mp hwords).2
    exact meets_bind (meets_any _) fun _ _ =>
      meets_pure (List.forall_mem_cons.mpr ⟨nofun, hcallers⟩)

/-- **The answer to an operation.** -/
theorem Grounded.complete {d : Dispatch} {control : Control}
    (hm : m.Grounded stackSize memorySize) (hwaits : m.Waits stackSize (.handling d control))
    (hslot : SlotIn (.handling d control)) (h : m.complete d control = .ok n) :
    n.Grounded stackSize memorySize := by
  obtain ⟨hne, hscratch⟩ := hwaits
  have hbounded : n.Bounded stackSize memorySize := by
    obtain ⟨k, hk, hbounded⟩ := hm.toBounded.complete hne hscratch control
    cases hk.symm.trans h
    exact hbounded
  refine hm.of_sameSetup (sameSetup_complete h) hbounded ?_
  obtain ⟨f, callers, hframes⟩ := List.exists_cons_of_ne_nil hne
  obtain ⟨k, _, hclose, hk, _⟩ := hm.toBounded.closeOperation hframes hscratch
  have hwords := (words_closeOperation hm.words hslot).ok hclose
  obtain ⟨k', hclose', h⟩ := bind_eq_ok_iff.mp h
  cases hclose.symm.trans hclose'
  cases control with
  | proceed =>
    cases h
    exact hwords
  | goTo position => exact (words_redirect hwords position d.scratch).ok h
  | leave =>
    exact (words_leave hwords fun f hf => hm.stack_lt (hk.frames f hf).places.1).ok h

/-! ## Histories -/

theorem grounded_create {room depthLimit index : Nat} {p : Program} {entry : String}
    (hlay : Context.layProgram room p stackSize memorySize depthLimit = .ok m)
    (hfound : Session.findEntry p entry = .ok index) (henter : m.enter index [] = .ok n) :
    n.Grounded stackSize memorySize := by
  have hbounded := bounded_create hlay hfound henter
  have hsound := sound_layProgram hlay
  obtain ⟨hroom, hfits, rfl⟩ := Context.layProgram_eq_ok_iff.mp hlay
  obtain ⟨procedure, _, _, rfl⟩ := (enter_nil_iff hsound).mp henter
  refine ⟨hbounded, Nat.le_trans hroom (Nat.min_le_right _ _), ?_, ?_, ?_⟩
  · intro base hbase
    have hdata : (if p.dataSize > 0 then some stackSize else none) = some base := hbase
    obtain ⟨_, hbase⟩ := Option.ite_none_right_eq_some.mp hdata
    cases hbase
    exact Nat.le_add_right _ _
  · intro base hbase
    have hglobals : (if p.globalsSize.toNat > 0 then some (stackSize + p.dataSize) else none) =
      some base := hbase
    obtain ⟨_, hbase⟩ := Option.ite_none_right_eq_some.mp hglobals
    cases hbase
    omega
  · intro f hf
    cases List.mem_singleton.mp hf
    exact nofun

/-- **Histories.** Whatever a host does, the addresses in the hands of a machine are words. -/
theorem Reachable.grounded {allowed : Machine → Wish → Prop} {stage : Stage}
    (h : m.Reachable allowed stage) :
    ∃ stackSize memorySize, m.Grounded stackSize memorySize ∧ m.Waits stackSize stage ∧
      SlotIn stage := by
  induction h with
  | create lay found enter => exact ⟨_, _, grounded_create lay found enter, trivial, trivial⟩
  | settle _ settle ih =>
    obtain ⟨stackSize, memorySize, hm, _⟩ := ih
    exact ⟨stackSize, memorySize, hm.unwind settle, trivial, trivial⟩
  | next _ more step ih =>
    obtain ⟨stackSize, memorySize, hm, _⟩ := ih
    exact ⟨stackSize, memorySize, (hm.step step more).1, trivial, trivial⟩
  | dispatch _ more step ih =>
    obtain ⟨stackSize, memorySize, hm, _⟩ := ih
    obtain ⟨hn, hwords⟩ := hm.step step more
    exact ⟨stackSize, memorySize, hn, (hm.toBounded.step step more).2, hwords.2⟩
  | @perform m stage action _ _ ih =>
    obtain ⟨stackSize, memorySize, hm, hwaits, hslot⟩ := ih
    have hbounded : Bounded stackSize memorySize { m with arena := (m.arena.perform action).2 } :=
      ⟨Arena.wellFormed_perform hm.sound _, hm.depth, hm.frames⟩
    refine ⟨stackSize, memorySize, hm.of_sameSetup (sameSetup_with m _ _) hbounded hm.words, ?_,
      hslot⟩
    cases stage with
    | resting => trivial
    | handling d control => exact hwaits
  | goTo _ _ _ _ _ ih | forceReturn _ _ ih => exact ih
  | complete _ complete ih =>
    obtain ⟨stackSize, memorySize, hm, hwaits, hslot⟩ := ih
    exact ⟨stackSize, memorySize, hm.complete hwaits hslot complete, trivial, trivial⟩

end Machine

end Hostcall
