import Hostcall.Proofs.Check.Worklist

/-!
# Accepted programs

The check accepts a program if and only if it is well-formed.

* `assignment_shapeAt?`: the shapes that the check finds are an assignment, because in the last
  survey every position with a shape has been visited.
* `procedure_eq_ok_of_wellFormed`: no visit finds a defect in a procedure that has an assignment
  `σ`, because every survey of the loop agrees with `σ`.
* `check_eq_ok_iff_wellFormed_and_loop_inside`: both directions, together with what the loop
  does on every procedure, also on one that is refused.
-/

namespace Hostcall

open Attempt

/-- The shape that the check finds at a position of a procedure. -/
def Program.shapeAt? (program : Program) (p : Procedure) (position : Nat) : Option Shape :=
  match Check.shapes program p with
  | .ok table => (table[position]?).join
  | .error _ => none

namespace Check

/-! ## Accepted procedures have an assignment -/

theorem procedure_eq_ok_iff {program : Program} {p : Procedure} :
    procedure program p = .ok () ↔
      labels p.name p.code.size [] p.labels = .ok () ∧
        allReferences program p 0 p.code.toList = .ok () ∧
        ∃ table, shapes program p = .ok table := by
  unfold procedure
  simp only [bind_eq_ok_iff]
  constructor
  · rintro ⟨⟨⟩, hl, ⟨⟩, hr, table, htable, _⟩
    exact ⟨hl, hr, table, htable⟩
  · rintro ⟨hl, hr, table, htable⟩
    exact ⟨(), hl, (), hr, table, htable, rfl⟩

theorem assignment_shapeAt? {program : Program} {p : Procedure}
    (h : procedure program p = .ok ()) : Assignment program p (program.shapeAt? p) := by
  obtain ⟨hl, hr, table, htable⟩ := procedure_eq_ok_iff.mp h
  obtain ⟨visited, s, hreach, hends⟩ := exists_last hl hr
  rw [htable] at hends
  rcases hends with ⟨hvisit, hs⟩ | ⟨_, _, he⟩
  · cases hs
    have hempty := queue_eq_nil_of_visit hvisit
    have hchart := charted_of_reached hreach
    have hshape : ∀ q, program.shapeAt? p q = s.shape? q := by
      intro q
      simp [Program.shapeAt?, htable, Survey.shape?]
    have hobeys : ∀ {q i x}, p.code[q]? = some i → s.shape? q = some x →
        i.Fits program x ∧ ∀ r ∈ i.successors q, s.shape? r = some (i.outcome program x) := by
      intro q i x hi hx
      have hq : q ∈ visited := by simpa [hempty] using (hchart.known q).mpr ⟨x, hx⟩
      obtain ⟨y, hy, hfits, hsucc⟩ := hchart.obeys q hq i hi
      rw [hx] at hy
      cases hy
      exact ⟨hfits, hsucc⟩
    refine ⟨(hshape 0).trans hchart.origin, ?_, ?_⟩
    · intro q i x hi hx
      exact (hobeys hi ((hshape q).symm.trans hx)).1
    · intro q i x hi hx r hnext
      have hsucc := Instruction.mem_successors_iff.mpr hnext
      exact (hshape r).trans ((hobeys hi ((hshape q).symm.trans hx)).2 r hsucc)
  · cases he

theorem wellFormed_of_procedure_eq_ok {program : Program} {p : Procedure}
    (h : procedure program p = .ok ()) : p.WellFormed program := by
  obtain ⟨hl, hr, _⟩ := procedure_eq_ok_iff.mp h
  obtain ⟨hnames, hinside⟩ := labels_eq_ok_iff.mp hl
  refine ⟨(firstRepeat_eq_none_iff.mp hnames).1, hinside, ?_, _, assignment_shapeAt? h⟩
  intro i hi
  exact allReferences_eq_ok_iff.mp hr i (Array.mem_toList_iff.mpr hi)

/-! ## Procedures with an assignment are accepted -/

/-- The shapes of a survey are those of an assignment. -/
def Survey.Agrees (s : Survey) (σ : Nat → Option Shape) : Prop :=
  ∀ {q x}, s.shape? q = some x → σ q = some x

theorem exists_arrive_of_agrees (name : String) {shape : Shape} {s : Survey}
    {σ : Nat → Option Shape} (hs : s.Agrees σ) {q : Nat} (hq : σ q = some shape) :
    ∃ t, s.arrive name shape q = .ok t := by
  unfold Survey.arrive
  split
  · exact ⟨s, rfl⟩
  · exact ⟨_, rfl⟩
  · rename_i found hfound
    have hσ : σ q = some found := hs (by simp [Survey.shape?, hfound])
    rw [hq] at hσ
    cases hσ
    exact ⟨s, if_pos rfl⟩

theorem Grown.agrees {shape : Shape} {positions : List Nat} {s t : Survey}
    {σ : Nat → Option Shape} (h : Grown shape positions s t) (hs : s.Agrees σ)
    (hσ : ∀ q ∈ positions, σ q = some shape) : t.Agrees σ := by
  intro q x hx
  rcases h.added hx with hx | ⟨hq, rfl⟩
  · exact hs hx
  · exact hσ q hq

theorem exists_arriveAll_of_agrees (name : String) {shape : Shape} {s : Survey}
    {σ : Nat → Option Shape} {positions : List Nat} (hs : s.Agrees σ)
    (hσ : ∀ q ∈ positions, σ q = some shape) (hin : ∀ q ∈ positions, q < s.shapes.size) :
    ∃ t, s.arriveAll name shape positions = .ok t := by
  induction positions generalizing s with
  | nil => exact ⟨s, rfl⟩
  | cons q rest ih =>
    obtain ⟨u, hu⟩ := exists_arrive_of_agrees name hs (hσ q List.mem_cons_self)
    have hgrown := grown_arrive hu (hin q List.mem_cons_self)
    have hu' : u.Agrees σ := hgrown.agrees hs fun r hr => hσ r (by simp_all)
    obtain ⟨t, ht⟩ := ih hu' (fun r hr => hσ r (List.mem_cons_of_mem _ hr)) fun r hr => by
      rw [hgrown.size_eq]
      exact hin r (List.mem_cons_of_mem _ hr)
    exact ⟨t, by rw [Survey.arriveAll, hu]; exact ht⟩

/-- The successors of a position that an assignment knows get the shape that it gives them, so a
visit to the position succeeds. -/
theorem exists_visit_of_agrees {program : Program} {p : Procedure} {s : Survey}
    {σ : Nat → Option Shape} (hσ : Assignment program p σ) (hs : s.Agrees σ)
    (hin : ∀ q ∈ s.queue, ∀ i, p.code[q]? = some i → ∀ r ∈ i.successors q, r < s.shapes.size) :
    ∃ next, visit program p s = .ok next ∧ ∀ t, next = some t → t.Agrees σ := by
  unfold visit
  split
  · exact ⟨none, rfl, by simp⟩
  · rename_i position queue hq
    split
    · rename_i i x hi hx
      have hx' : σ position = some x := hs hx
      have hafter : i.shapeAfter program p.name position x = .ok (i.outcome program x) :=
        Instruction.shapeAfter_eq_ok_iff.mpr ⟨hσ.fits hi hx', rfl⟩
      have hsucc : ∀ r ∈ i.successors position, σ r = some (i.outcome program x) :=
        fun r hr => hσ.follows hi hx' r (Instruction.mem_successors_iff.mp hr)
      have hrange := hin position (by simp [hq]) i hi
      obtain ⟨t, ht⟩ := exists_arriveAll_of_agrees p.name (s := ⟨s.shapes, queue⟩) hs hsucc hrange
      rw [hafter]
      dsimp only
      rw [ht]
      refine ⟨some t, rfl, ?_⟩
      rintro _ ⟨⟩
      exact (grown_arriveAll ht hrange).agrees hs hsucc
    · refine ⟨some ⟨s.shapes, queue⟩, rfl, ?_⟩
      rintro _ ⟨⟩
      exact hs

/-- What a visit looks up is there: shapes, code and procedures. -/
structure Inside (program : Program) (p : Procedure) (s : Survey) : Prop where
  shape : ∀ q ∈ s.queue, q < s.shapes.size ∧ ∃ x, s.shape? q = some x
  code : ∀ q ∈ s.queue, q ≠ p.code.size → q < p.code.size
  successor : ∀ q ∈ s.queue, ∀ i, p.code[q]? = some i → ∀ r ∈ i.successors q, r < s.shapes.size
  callee : ∀ q ∈ s.queue, ∀ index, p.code[q]? = some (.call index) →
    index.toNat < program.procedures.size

theorem inside_of_reached {program : Program} {p : Procedure} {visited : List Nat} {s : Survey}
    (h : Reached program p visited s) : Inside program p s := by
  have hchart := charted_of_reached h
  have hres := resolves_of_reached h
  have hlt : ∀ q ∈ s.queue, q < s.shapes.size := fun q hq =>
    hchart.lt_size (List.mem_append_right _ hq)
  refine ⟨?_, ?_, ?_, ?_⟩
  · intro q hq
    exact ⟨hlt q hq, (hchart.known q).mp (List.mem_append_right _ hq)⟩
  · intro q hq hne
    have := hlt q hq
    have := hchart.size_eq
    omega
  · intro q _ i hi r hr
    have hq := (Array.getElem?_eq_some_iff.mp hi).1
    have := (hres i (Array.mem_of_getElem? hi)).successor_le hq r hr
    have := hchart.size_eq
    omega
  · intro q _ index hi
    exact hres _ (Array.mem_of_getElem? hi)

theorem agrees_of_reached {program : Program} {p : Procedure} {σ : Nat → Option Shape}
    (hσ : Assignment program p σ) {visited : List Nat} {s : Survey}
    (h : Reached program p visited s) : s.Agrees σ := by
  induction h with
  | start =>
    intro q x hx
    rw [shape?_start] at hx
    split at hx
    · rename_i hq
      rw [hq, hσ.start]
      exact hx
    · cases hx
  | visit hreach hq hvisit ih =>
    obtain ⟨next, hnext, hagrees⟩ :=
      exists_visit_of_agrees hσ ih (inside_of_reached hreach).successor
    rw [hvisit] at hnext
    cases hnext
    exact hagrees _ rfl

theorem procedure_eq_ok_of_wellFormed {program : Program} {p : Procedure}
    (h : p.WellFormed program) : procedure program p = .ok () := by
  obtain ⟨σ, hσ⟩ := h.assigned
  have hl : labels p.name p.code.size [] p.labels = .ok () :=
    labels_eq_ok_iff.mpr
      ⟨firstRepeat_eq_none_iff.mpr ⟨h.labels_nodup, by simp⟩, h.labels_inside⟩
  have hr : allReferences program p 0 p.code.toList = .ok () :=
    allReferences_eq_ok_iff.mpr fun i hi => h.resolves i (Array.mem_toList_iff.mp hi)
  obtain ⟨visited, s, hreach, ⟨_, hanswer⟩ | ⟨defect, hdefect, _⟩⟩ := exists_last hl hr
  · exact procedure_eq_ok_iff.mpr ⟨hl, hr, _, hanswer⟩
  · obtain ⟨next, hnext, _⟩ := exists_visit_of_agrees hσ (agrees_of_reached hσ hreach)
      (inside_of_reached hreach).successor
    rw [hdefect] at hnext
    cases hnext

/-! ## Programs -/

theorem procedures_eq_ok_iff {program : Program} {ps : List Procedure} :
    procedures program ps = .ok () ↔ ∀ p ∈ ps, procedure program p = .ok () := by
  induction ps with
  | nil => simp [procedures]
  | cons p rest ih =>
    rw [procedures, bind_eq_ok_iff, List.forall_mem_cons, ← ih]
    constructor
    · rintro ⟨⟨⟩, hp, hrest⟩
      exact ⟨hp, hrest⟩
    · rintro ⟨hp, hrest⟩
      exact ⟨(), hp, hrest⟩

theorem check_eq_ok_iff {program : Program} :
    program.check = .ok () ↔
      (program.procedures.toList.map (·.name)).Nodup ∧
        ∀ p ∈ program.procedures, procedure program p = .ok () := by
  unfold Program.check
  cases hnames : firstRepeat [] (program.procedures.toList.map (·.name)) with
  | some name =>
    have hnot : ¬ (program.procedures.toList.map (·.name)).Nodup := by
      intro hnd
      have := firstRepeat_eq_none_iff.mpr
        ⟨hnd, fun x _ => (List.not_mem_nil : x ∉ ([] : List String))⟩
      rw [hnames] at this
      cases this
    simp [hnot]
  | none =>
    have hnd := (firstRepeat_eq_none_iff.mp hnames).1
    simp [hnd, procedures_eq_ok_iff]

/-- No more positions are queued than the code has, its end included. -/
theorem length_le_of_reached {program : Program} {p : Procedure} {visited : List Nat} {s : Survey}
    (h : Reached program p visited s) : visited.length + s.queue.length ≤ p.code.size + 1 := by
  have hchart := charted_of_reached h
  have hsub : visited ++ s.queue ⊆ List.range (p.code.size + 1) := by
    intro q hq
    have := hchart.lt_size hq
    rw [hchart.size_eq] at this
    exact List.mem_range.mpr this
  simpa using hchart.nodup.length_le_of_subset hsub

/-- **Acceptance.** A program passes the check if and only if it is well-formed. For each of its
procedures, refused ones included, the loop comes to an end after no more visits than there are
positions, queues no position twice and looks up nothing that is not there. -/
theorem check_eq_ok_iff_wellFormed_and_loop_inside (program : Program) :
    (program.check = .ok () ↔ program.WellFormed) ∧
      ∀ p : Procedure,
        (labels p.name p.code.size [] p.labels = .ok () →
          allReferences program p 0 p.code.toList = .ok () →
          ∃ visited s, Reached program p visited s ∧ Ends program p s (shapes program p)) ∧
        ∀ visited s, Reached program p visited s →
          visited.length + s.queue.length ≤ p.code.size + 1 ∧
            (visited ++ s.queue).Nodup ∧ Inside program p s := by
  refine ⟨?_, fun p => ⟨exists_last, fun visited s h => ?_⟩⟩
  · rw [check_eq_ok_iff]
    constructor
    · rintro ⟨hnames, hprocs⟩
      exact ⟨hnames, fun p hp => wellFormed_of_procedure_eq_ok (hprocs p hp)⟩
    · rintro ⟨hnames, hprocs⟩
      exact ⟨hnames, fun p hp => procedure_eq_ok_of_wellFormed (hprocs p hp)⟩
  · exact ⟨length_le_of_reached h, (charted_of_reached h).nodup, inside_of_reached h⟩

end Check

end Hostcall
