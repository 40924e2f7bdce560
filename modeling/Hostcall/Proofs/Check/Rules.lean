import Hostcall.Program.Check
import Hostcall.Proofs.Attempt

/-!
# The rules of well-formed code

What the check asks of a program, said without following its code.

* `Instruction.Fits`, `Instruction.outcome`, `Instruction.ContinuesAt`: when a shape is enough for
  an instruction, which shape the instruction leaves, and where; `Instruction.Resolves`: what it
  refers to exists.
* `Assignment program p σ`: `σ` gives a shape to some positions of `p`, among them the start,
  and the shapes where the code goes on are what the instruction leaves.
* `Program.WellFormed`: names are different, references resolve and every procedure has an
  assignment.

The rules of single instructions are given by cases, and the single checks are settled here:
`shapeAfter_eq_ok_iff`, `mem_successors_iff`, `firstRepeat_eq_none_iff`, `labels_eq_ok_iff` and
`allReferences_eq_ok_iff`.
-/

namespace Hostcall

open Attempt

namespace Instruction

/-- The frame has the addresses that the instruction takes, and an open operation if the
instruction belongs to one. -/
def Fits (program : Program) (s : Shape) (i : Instruction) : Prop :=
  i.pops program ≤ s.height ∧
    match i with
    | .param | .target | .opEnd _ _ => 1 ≤ s.opened
    | _ => True

/-- The shape that an instruction leaves. -/
def outcome (program : Program) (s : Shape) (i : Instruction) : Shape where
  height := s.height - i.pops program + i.pushes program
  opened :=
    match i with
    | .opBegin => s.opened + 1
    | .opEnd _ _ => s.opened - 1
    | _ => s.opened

/-- After an instruction at `q` the code may go on at `r`. -/
def ContinuesAt (q r : Nat) : Instruction → Prop
  | .ret => False
  | .jump goal => r = goal.toNat
  | .branchIf goal => r = q + 1 ∨ r = goal.toNat
  | _ => r = q + 1

/-- What an instruction refers to exists. -/
def Resolves (program : Program) (codeSize : Nat) : Instruction → Prop
  | .jump goal | .branchIf goal => goal.toNat ≤ codeSize
  | .call index => index.toNat < program.procedures.size
  | .opEnd op _ => op.toNat < program.ops.size
  | _ => True

end Instruction

/-- Shapes for positions of a procedure, the end of its code included. A position without a
shape is one that the start does not lead to. -/
structure Assignment (program : Program) (p : Procedure) (σ : Nat → Option Shape) : Prop where
  start : σ 0 = some ⟨0, 0⟩
  fits : ∀ {q i s}, p.code[q]? = some i → σ q = some s → i.Fits program s
  follows : ∀ {q i s}, p.code[q]? = some i → σ q = some s →
    ∀ r, i.ContinuesAt q r → σ r = some (i.outcome program s)

/-- A procedure that can be part of a program. -/
structure Procedure.WellFormed (program : Program) (p : Procedure) : Prop where
  labels_nodup : (p.labels.map (·.1)).Nodup
  labels_inside : ∀ l ∈ p.labels, l.2.toNat ≤ p.code.size
  resolves : ∀ i ∈ p.code, i.Resolves program p.code.size
  assigned : ∃ σ, Assignment program p σ

structure Program.WellFormed (program : Program) : Prop where
  names_nodup : (program.procedures.toList.map (·.name)).Nodup
  procedures : ∀ p ∈ program.procedures, p.WellFormed program

/-! ## Single instructions -/

namespace Instruction

variable {program : Program} {s t : Shape} {i : Instruction}

theorem fits_iff :
    i.Fits program s ↔ i.pops program ≤ s.height ∧ (i.needsOperation = true → 1 ≤ s.opened) := by
  cases i <;> simp [Fits, needsOperation]

theorem outcome_eq (program : Program) (s : Shape) (i : Instruction) :
    i.outcome program s =
      ⟨s.height - i.pops program + i.pushes program, i.openedAfter s.opened⟩ := by
  cases i <;> rfl

theorem shapeAfter_eq_ok_iff {name : String} {position : Nat} :
    i.shapeAfter program name position s = .ok t ↔ i.Fits program s ∧ t = i.outcome program s := by
  rw [fits_iff, outcome_eq]
  unfold shapeAfter
  split
  · rename_i hlow
    constructor
    · intro h
      cases h
    · rintro ⟨⟨hpops, _⟩, _⟩
      omega
  · rename_i hpops
    split
    · rename_i hop
      simp only [Bool.and_eq_true, beq_iff_eq] at hop
      constructor
      · intro h
        cases h
      · rintro ⟨⟨_, hneeds⟩, _⟩
        have := hneeds hop.1
        omega
    · rename_i hop
      simp only [Bool.and_eq_true, beq_iff_eq, not_and] at hop
      constructor
      · intro h
        cases h
        refine ⟨⟨by omega, ?_⟩, rfl⟩
        intro hneeds
        have := hop hneeds
        omega
      · rintro ⟨_, rfl⟩
        rfl

theorem mem_successors_iff {q r : Nat} : r ∈ i.successors q ↔ i.ContinuesAt q r := by
  cases i <;> simp [successors, ContinuesAt]

/-- After an instruction whose references resolve the code goes on inside or at its end. -/
theorem Resolves.successor_le {codeSize q : Nat} (h : i.Resolves program codeSize)
    (hq : q < codeSize) : ∀ r ∈ i.successors q, r ≤ codeSize := by
  intro r hr
  have hr := mem_successors_iff.mp hr
  cases i with
  | ret => cases hr
  | jump goal =>
    cases hr
    exact h
  | branchIf goal =>
    rcases hr with rfl | rfl
    · exact hq
    · exact h
  | _ =>
    cases hr
    exact hq

end Instruction

namespace Check

theorem references_eq_ok_iff {program : Program} {p : Procedure} {position : Nat}
    {i : Instruction} :
    references program p position i = .ok () ↔ i.Resolves program p.code.size := by
  cases i with
  | jump goal | branchIf goal =>
    simp only [references, Instruction.Resolves]
    split <;> simp <;> omega
  | call index =>
    simp only [references, Instruction.Resolves]
    split <;> simp <;> omega
  | opEnd op result =>
    simp only [references, Instruction.Resolves]
    split <;> simp <;> omega
  | _ => simp [references, Instruction.Resolves]

theorem allReferences_eq_ok_iff {program : Program} {p : Procedure} {position : Nat}
    {code : List Instruction} :
    allReferences program p position code = .ok () ↔
      ∀ i ∈ code, i.Resolves program p.code.size := by
  induction code generalizing position with
  | nil => simp [allReferences]
  | cons i rest ih =>
    rw [allReferences, bind_eq_ok_iff, List.forall_mem_cons]
    constructor
    · rintro ⟨⟨⟩, hi, hrest⟩
      exact ⟨references_eq_ok_iff.mp hi, ih.mp hrest⟩
    · rintro ⟨hi, hrest⟩
      exact ⟨(), references_eq_ok_iff.mpr hi, ih.mpr hrest⟩

/-! ## Names -/

theorem firstRepeat_eq_none_iff {seen names : List String} :
    firstRepeat seen names = none ↔ names.Nodup ∧ ∀ x ∈ names, x ∉ seen := by
  induction names generalizing seen with
  | nil => simp [firstRepeat]
  | cons x rest ih =>
    rw [firstRepeat]
    split
    · rename_i hx
      simp [hx]
    · rename_i hx
      rw [ih, List.nodup_cons, List.forall_mem_cons]
      constructor
      · rintro ⟨hnd, hfresh⟩
        refine ⟨⟨fun hm => hfresh x hm List.mem_cons_self, hnd⟩, hx, ?_⟩
        exact fun y hy hseen => hfresh y hy (List.mem_cons_of_mem _ hseen)
      · rintro ⟨⟨hmem, hnd⟩, _, hfresh⟩
        refine ⟨hnd, fun y hy hseen => ?_⟩
        rcases List.mem_cons.mp hseen with rfl | hseen
        · exact hmem hy
        · exact hfresh y hy hseen

theorem labels_eq_ok_iff {name : String} {codeSize : Nat} {seen : List String}
    {ls : List (String × UInt32)} :
    labels name codeSize seen ls = .ok () ↔
      firstRepeat seen (ls.map (·.1)) = none ∧ ∀ l ∈ ls, l.2.toNat ≤ codeSize := by
  induction ls generalizing seen with
  | nil => simp [labels, firstRepeat]
  | cons l rest ih =>
    obtain ⟨label, position⟩ := l
    simp only [labels, List.map_cons, firstRepeat, List.forall_mem_cons]
    by_cases hseen : label ∈ seen
    · simp [hseen]
    · by_cases hin : position.toNat ≤ codeSize
      · have hout : ¬ position.toNat > codeSize := by omega
        simp only [hseen, hout, hin, if_false, true_and]
        exact ih
      · have hout : position.toNat > codeSize := by omega
        simp [hseen, hout, hin]

end Check

end Hostcall
