import Hostcall.Proofs.Check.Rules

/-!
# Following the code of a procedure

`Check.follow` takes positions from the front of a queue and brings shapes to their successors.
`Reached program p visited s` says that the loop comes to the survey `s` after it has taken the
positions `visited` from the queue; nothing is assumed of how the loop ends.

* `grown_arriveAll`: bringing a shape to positions keeps the shapes that are there, and queues
  exactly the positions that had none.
* `charted_of_reached`: every survey of the loop is `Charted`. A position has a shape if and only
  if it was queued, no position is queued twice, and the visited positions obey the rules.
* `exists_last`: the loop ends, and `Check.shapes` answers as its last survey says.
-/

namespace Hostcall.Check

/-- The shape found at a position. -/
def Survey.shape? (s : Survey) (position : Nat) : Option Shape := (s.shapes[position]?).join

/-! ## Bringing a shape to positions -/

theorem Survey.lt_size_of_shape? {s : Survey} {q : Nat} {x : Shape} (h : s.shape? q = some x) :
    q < s.shapes.size := by
  rcases Nat.lt_or_ge q s.shapes.size with hq | hq
  · exact hq
  · simp [shape?, Array.getElem?_eq_none hq] at h

theorem Survey.shape?_set {s : Survey} {q : Nat} (hq : q < s.shapes.size) (x : Shape)
    (queue : List Nat) (r : Nat) :
    (Survey.mk (s.shapes.setIfInBounds q (some x)) queue).shape? r =
      if r = q then some x else s.shape? r := by
  simp only [shape?, Array.getElem?_setIfInBounds]
  by_cases hr : q = r
  · subst hr
    simp [hq]
  · simp [hr, Ne.symm hr]

/-- The survey `t` is the survey `s` after a shape has been brought to positions. -/
structure Grown (shape : Shape) (positions : List Nat) (s t : Survey) : Prop where
  size_eq : t.shapes.size = s.shapes.size
  kept : ∀ {q x}, s.shape? q = some x → t.shape? q = some x
  brought : ∀ q ∈ positions, t.shape? q = some shape
  added : ∀ {q x}, t.shape? q = some x → s.shape? q = some x ∨ q ∈ positions ∧ x = shape
  queued : ∃ fresh, t.queue = s.queue ++ fresh ∧ fresh.Nodup ∧
    ∀ q, q ∈ fresh ↔ s.shape? q = none ∧ t.shape? q = some shape

theorem grown_refl (shape : Shape) (s : Survey) : Grown shape [] s s := by
  refine ⟨rfl, fun h => h, by simp, fun h => Or.inl h, [], by simp, List.nodup_nil, ?_⟩
  intro q
  constructor
  · intro hq
    cases hq
  · rintro ⟨hnone, hsome⟩
    rw [hnone] at hsome
    cases hsome

theorem grown_arrive {name : String} {shape : Shape} {s t : Survey} {q : Nat}
    (h : s.arrive name shape q = .ok t) (hq : q < s.shapes.size) : Grown shape [q] s t := by
  have hget : s.shapes[q]? = some s.shapes[q] := Array.getElem?_eq_getElem hq
  unfold Survey.arrive at h
  split at h
  · rename_i hnone
    rw [hnone] at hget
    cases hget
  · rename_i hnone
    cases h
    have hq' : s.shape? q = none := by simp [Survey.shape?, hnone]
    refine ⟨by simp, ?_, ?_, ?_, [q], rfl, by simp, ?_⟩
    · intro r x hr
      rw [Survey.shape?_set hq]
      split
      · rename_i he
        rw [he, hq'] at hr
        cases hr
      · exact hr
    · intro r hr
      rw [Survey.shape?_set hq, if_pos (List.mem_singleton.mp hr)]
    · intro r x hr
      rw [Survey.shape?_set hq] at hr
      split at hr
      · rename_i he
        cases hr
        exact Or.inr ⟨by simp [he], rfl⟩
      · exact Or.inl hr
    · intro r
      rw [Survey.shape?_set hq]
      constructor
      · intro hr
        rw [List.mem_singleton.mp hr]
        exact ⟨hq', by simp⟩
      · rintro ⟨hnone', hsome⟩
        split at hsome
        · rename_i he
          exact List.mem_singleton.mpr he
        · rw [hnone'] at hsome
          cases hsome
  · rename_i found hfound
    split at h
    · rename_i he
      cases h
      have hq' : s.shape? q = some shape := by simp [Survey.shape?, hfound, he]
      refine ⟨rfl, fun hr => hr, ?_, fun hr => Or.inl hr, (grown_refl shape s).queued⟩
      intro r hr
      rw [List.mem_singleton.mp hr]
      exact hq'
    · cases h

theorem Grown.trans {shape : Shape} {first rest : List Nat} {s t u : Survey}
    (h₁ : Grown shape first s t) (h₂ : Grown shape rest t u) : Grown shape (first ++ rest) s u := by
  obtain ⟨fresh₁, hq₁, hnd₁, hmem₁⟩ := h₁.queued
  obtain ⟨fresh₂, hq₂, hnd₂, hmem₂⟩ := h₂.queued
  refine ⟨h₂.size_eq.trans h₁.size_eq, fun h => h₂.kept (h₁.kept h), ?_, ?_,
    fresh₁ ++ fresh₂, by rw [hq₂, hq₁, List.append_assoc], ?_, ?_⟩
  · intro q hq
    rcases List.mem_append.mp hq with hq | hq
    · exact h₂.kept (h₁.brought q hq)
    · exact h₂.brought q hq
  · intro q x hx
    rcases h₂.added hx with hx | ⟨hq, hx⟩
    · rcases h₁.added hx with hx | ⟨hq, hx⟩
      · exact Or.inl hx
      · exact Or.inr ⟨List.mem_append_left _ hq, hx⟩
    · exact Or.inr ⟨List.mem_append_right _ hq, hx⟩
  · refine List.nodup_append.mpr ⟨hnd₁, hnd₂, ?_⟩
    rintro q hq r hr rfl
    have h₁' := ((hmem₁ q).mp hq).2
    rw [((hmem₂ q).mp hr).1] at h₁'
    cases h₁'
  · intro q
    rw [List.mem_append, hmem₁, hmem₂]
    constructor
    · rintro (⟨hnone, hsome⟩ | ⟨hnone, hsome⟩)
      · exact ⟨hnone, h₂.kept hsome⟩
      · refine ⟨?_, hsome⟩
        cases hs : s.shape? q with
        | none => rfl
        | some x =>
          rw [h₁.kept hs] at hnone
          cases hnone
    · rintro ⟨hnone, hsome⟩
      cases ht : t.shape? q with
      | none => exact Or.inr ⟨rfl, hsome⟩
      | some x =>
        refine Or.inl ⟨hnone, ?_⟩
        rw [← hsome, h₂.kept ht]

theorem grown_arriveAll {name : String} {shape : Shape} {s t : Survey} {positions : List Nat}
    (h : s.arriveAll name shape positions = .ok t) (hin : ∀ q ∈ positions, q < s.shapes.size) :
    Grown shape positions s t := by
  induction positions generalizing s with
  | nil =>
    cases h
    exact grown_refl shape t
  | cons q rest ih =>
    rw [Survey.arriveAll] at h
    split at h
    · cases h
    · rename_i u hu
      have hfirst := grown_arrive hu (hin q List.mem_cons_self)
      refine hfirst.trans (ih h ?_)
      intro r hr
      rw [hfirst.size_eq]
      exact hin r (List.mem_cons_of_mem _ hr)

/-! ## The loop -/

/-- The surveys that checking a procedure goes through, each with the positions that have been
taken from the queue. The loop starts only if labels and references are in order. -/
inductive Reached (program : Program) (p : Procedure) : List Nat → Survey → Prop
  | start : labels p.name p.code.size [] p.labels = .ok () →
      allReferences program p 0 p.code.toList = .ok () →
      Reached program p [] (start p.code.size)
  | visit {visited rest : List Nat} {position : Nat} {s t : Survey} :
      Reached program p visited s → s.queue = position :: rest →
      visit program p s = .ok (some t) → Reached program p (visited ++ [position]) t

theorem resolves_of_reached {program : Program} {p : Procedure} {visited : List Nat} {s : Survey}
    (h : Reached program p visited s) : ∀ i ∈ p.code, i.Resolves program p.code.size := by
  induction h with
  | start _ href =>
    intro i hi
    exact allReferences_eq_ok_iff.mp href i (Array.mem_toList_iff.mpr hi)
  | visit _ _ _ ih => exact ih

/-- A visit to a position with an instruction and a shape brings what the instruction leaves to
its successors. Any other visit only shortens the queue. -/
theorem visit_cases {program : Program} {p : Procedure} {s t : Survey} {position : Nat}
    {rest : List Nat} (hq : s.queue = position :: rest) (h : visit program p s = .ok (some t)) :
    (∃ i x, p.code[position]? = some i ∧ s.shape? position = some x ∧ i.Fits program x ∧
      (Survey.mk s.shapes rest).arriveAll p.name (i.outcome program x) (i.successors position) =
        .ok t) ∨
    ((p.code[position]? = none ∨ s.shape? position = none) ∧ t = ⟨s.shapes, rest⟩) := by
  unfold visit at h
  rw [hq] at h
  dsimp only at h
  split at h
  · rename_i i x hi hx
    split at h
    · cases h
    · rename_i next hnext
      split at h
      · cases h
      · rename_i u hu
        cases h
        obtain ⟨hfits, rfl⟩ := Instruction.shapeAfter_eq_ok_iff.mp hnext
        exact Or.inl ⟨i, x, hi, hx, hfits, hu⟩
  · rename_i hnot
    cases h
    refine Or.inr ⟨?_, rfl⟩
    cases hi : p.code[position]? with
    | none => exact Or.inl rfl
    | some i =>
      cases hx : s.shape? position with
      | none => exact Or.inr rfl
      | some x => exact absurd hx (hnot i x hi)

/-- What every survey of the loop has found out. -/
structure Charted (program : Program) (p : Procedure) (visited : List Nat) (s : Survey) : Prop where
  size_eq : s.shapes.size = p.code.size + 1
  nodup : (visited ++ s.queue).Nodup
  known : ∀ q, q ∈ visited ++ s.queue ↔ ∃ x, s.shape? q = some x
  origin : s.shape? 0 = some ⟨0, 0⟩
  obeys : ∀ q ∈ visited, ∀ i, p.code[q]? = some i → ∃ x, s.shape? q = some x ∧
    i.Fits program x ∧ ∀ r ∈ i.successors q, s.shape? r = some (i.outcome program x)

theorem Charted.lt_size {program : Program} {p : Procedure} {visited : List Nat} {s : Survey}
    (h : Charted program p visited s) {q : Nat} (hq : q ∈ visited ++ s.queue) :
    q < s.shapes.size := by
  obtain ⟨x, hx⟩ := (h.known q).mp hq
  exact Survey.lt_size_of_shape? hx

theorem shape?_start (codeSize q : Nat) :
    (start codeSize).shape? q = if q = 0 then some ⟨0, 0⟩ else none := by
  have hlt : 0 < (Survey.mk (Array.replicate (codeSize + 1) none) []).shapes.size := by simp
  have hempty : (Survey.mk (Array.replicate (codeSize + 1) none) []).shape? q = none := by
    simp only [Survey.shape?, Array.getElem?_replicate]
    split <;> rfl
  have h := Survey.shape?_set hlt .initial [0] q
  rw [hempty] at h
  exact h

theorem charted_start (program : Program) (p : Procedure) :
    Charted program p [] (start p.code.size) where
  size_eq := by simp [start]
  nodup := by simp [start]
  known q := by
    rw [shape?_start]
    by_cases hq : q = 0
    · simp [start, hq]
    · simp [start, hq]
  origin := by rw [shape?_start, if_pos rfl]
  obeys := by simp

/-- One visit keeps a survey charted. The position that was visited joins those that obey the
rules, and what was already there only grows. -/
theorem charted_visit {program : Program} {p : Procedure} {visited rest : List Nat}
    {position : Nat} {s t : Survey} (hres : ∀ i ∈ p.code, i.Resolves program p.code.size)
    (hs : Charted program p visited s) (hq : s.queue = position :: rest)
    (h : visit program p s = .ok (some t)) : Charted program p (visited ++ [position]) t := by
  have hmem : position ∈ visited ++ s.queue := by simp [hq]
  obtain ⟨y, hy⟩ := (hs.known position).mp hmem
  have hsplit : visited ++ s.queue = visited ++ [position] ++ rest := by simp [hq]
  rcases visit_cases hq h with ⟨i, x, hi, hx, hfits, harr⟩ | ⟨hnone, rfl⟩
  · have hlt : position < p.code.size := (Array.getElem?_eq_some_iff.mp hi).1
    have hin : ∀ r ∈ i.successors position, r < (Survey.mk s.shapes rest).shapes.size := by
      intro r hr
      have := (hres i (Array.mem_of_getElem? hi)).successor_le hlt r hr
      rw [hs.size_eq]
      omega
    have hgrown := grown_arriveAll harr hin
    obtain ⟨fresh, hqueue, hnd, hfresh⟩ := hgrown.queued
    have hqueue' : visited ++ [position] ++ t.queue = visited ++ s.queue ++ fresh := by
      simp [hqueue, hq]
    refine ⟨hgrown.size_eq.trans hs.size_eq, ?_, ?_, hgrown.kept hs.origin, ?_⟩
    · rw [hqueue']
      refine List.nodup_append.mpr ⟨hs.nodup, hnd, ?_⟩
      rintro q hold r hnew rfl
      obtain ⟨z, hz⟩ := (hs.known q).mp hold
      have hz' : s.shape? q = none := ((hfresh q).mp hnew).1
      rw [hz] at hz'
      cases hz'
    · intro q
      rw [hqueue', List.mem_append, hs.known, hfresh]
      constructor
      · rintro (⟨z, hz⟩ | ⟨_, hz⟩)
        · exact ⟨z, hgrown.kept hz⟩
        · exact ⟨_, hz⟩
      · rintro ⟨z, hz⟩
        cases hold : s.shape? q with
        | some w => exact Or.inl ⟨w, rfl⟩
        | none =>
          rcases hgrown.added hz with hz | ⟨_, rfl⟩
          · exact Or.inl ⟨z, hold.symm.trans hz⟩
          · exact Or.inr ⟨hold, hz⟩
    · intro q hqv j hj
      rcases List.mem_append.mp hqv with hqv | hqv
      · obtain ⟨z, hz, hzfits, hzsucc⟩ := hs.obeys q hqv j hj
        exact ⟨z, hgrown.kept hz, hzfits, fun r hr => hgrown.kept (hzsucc r hr)⟩
      · rw [List.mem_singleton.mp hqv] at hj ⊢
        rw [hi] at hj
        cases hj
        exact ⟨x, hgrown.kept hx, hfits, hgrown.brought⟩
  · -- the position has a shape, so it is the end of the code
    have hend : p.code[position]? = none := by
      rcases hnone with hnone | hnone
      · exact hnone
      · rw [hy] at hnone
        cases hnone
    refine ⟨hs.size_eq, ?_, ?_, hs.origin, ?_⟩
    · rw [← hsplit]
      exact hs.nodup
    · intro q
      rw [← hsplit]
      exact hs.known q
    · intro q hqv j hj
      rcases List.mem_append.mp hqv with hqv | hqv
      · exact hs.obeys q hqv j hj
      · rw [List.mem_singleton.mp hqv, hend] at hj
        cases hj

theorem charted_of_reached {program : Program} {p : Procedure} {visited : List Nat} {s : Survey}
    (h : Reached program p visited s) : Charted program p visited s := by
  induction h with
  | start => exact charted_start program p
  | visit hreach hq hvisit ih => exact charted_visit (resolves_of_reached hreach) ih hq hvisit

/-- How the loop ends at a survey: with an empty queue or with a defect, which is then the
answer. -/
def Ends (program : Program) (p : Procedure) (s : Survey)
    (answer : Except Defect (Array (Option Shape))) : Prop :=
  (visit program p s = .ok none ∧ answer = .ok s.shapes) ∨
    ∃ defect, visit program p s = .error defect ∧ answer = .error defect

theorem exists_ends_of_reached {program : Program} {p : Procedure} {visited : List Nat}
    {s : Survey} (h : Reached program p visited s) :
    ∃ visited' t, Reached program p visited' t ∧ Ends program p t (follow program p s) := by
  fun_induction follow program p s generalizing visited with
  | case1 s defect hvisit => exact ⟨visited, s, h, Or.inr ⟨defect, hvisit, rfl⟩⟩
  | case2 s hvisit => exact ⟨visited, s, h, Or.inl ⟨hvisit, rfl⟩⟩
  | case3 s t hvisit ih =>
    cases hq : s.queue with
    | nil => simp [visit, hq] at hvisit
    | cons position rest => exact ih (h.visit hq hvisit)

/-- The loop ends, and the shapes of a procedure are those of its last survey. -/
theorem exists_last {program : Program} {p : Procedure}
    (hl : labels p.name p.code.size [] p.labels = .ok ())
    (hr : allReferences program p 0 p.code.toList = .ok ()) :
    ∃ visited s, Reached program p visited s ∧ Ends program p s (shapes program p) :=
  exists_ends_of_reached (.start hl hr)

theorem queue_eq_nil_of_visit {program : Program} {p : Procedure} {s : Survey}
    (h : visit program p s = .ok none) : s.queue = [] := by
  unfold visit at h
  split at h
  · assumption
  · split at h
    · split at h
      · cases h
      · split at h <;> cases h
    · cases h

end Hostcall.Check
