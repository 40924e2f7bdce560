import Mathlib.Algebra.Group.Nat.Defs
import Hostcall.Settings
import Hostcall.Proofs.Toml.Lines

/-!
# Settings survive being written and read

Writing settings leaves absent limits out, and reading fills in what a text leaves out. The two
agree: settings whose numbers the format can hold are read back as they were, whichever limits
are absent, and settings with a greater number are not written at all.

The text of settings is a list of lines, one for each number that is present
(`toList_intercalate_line`), which `Toml.parse?_lines` reads as a table. What remains is that the
table gives each name of the settings its value, or nothing if the value is absent
(`number?_present`).
-/

namespace Hostcall.Settings

open Toml

/-- Every number of the settings that is present is at most the bound. -/
structure AtMost (bound : Nat) (s : Settings) : Prop where
  stackSize : s.stackSize ≤ bound
  memorySize : s.memorySize ≤ bound
  maxArenaSize : ∀ n, s.maxArenaSize = some n → n ≤ bound
  maxContexts : ∀ n, s.maxContexts = some n → n ≤ bound
  maxCallDepth : s.maxCallDepth ≤ bound
  stepLimit : ∀ n, s.stepLimit = some n → n ≤ bound

/-! ## The lines of settings -/

/-- The numbers that are present, by name. -/
def present (fields : List (String × Option Nat)) : List (String × Nat) :=
  fields.filterMap fun (name, value) => value.map (name, ·)

theorem mem_present {fields : List (String × Option Nat)} {name : String} {n : Nat} :
    (name, n) ∈ present fields ↔ (name, some n) ∈ fields := by
  constructor
  · intro h
    obtain ⟨⟨first, value⟩, hmem, hvalue⟩ := List.mem_filterMap.mp h
    obtain ⟨m, rfl, hpair⟩ := Option.map_eq_some_iff.mp hvalue
    cases hpair
    exact hmem
  · intro h
    exact List.mem_filterMap.mpr ⟨(name, some n), h, rfl⟩

theorem map_fst_present_sublist (fields : List (String × Option Nat)) :
    ((present fields).map Prod.fst).Sublist (fields.map Prod.fst) := by
  induction fields with
  | nil => exact List.Sublist.refl _
  | cons field fields ih =>
    obtain ⟨name, value⟩ := field
    cases value with
    | none => exact ih.cons name
    | some n => exact ih.cons_cons name

theorem intercalate_empty_eq_join (texts : List String) :
    "".intercalate texts = String.join texts := by
  induction texts with
  | nil => simp
  | cons text texts ih =>
    cases texts with
    | nil => simp
    | cons next texts =>
      rw [String.intercalate_cons_cons, ih]
      simp

/-- A present number has its line and an absent one has none. -/
theorem toList_intercalate_line (fields : List (String × Option Nat)) :
    ("".intercalate (fields.map Settings.line)).toList = lines (present fields) := by
  rw [intercalate_empty_eq_join, String.toList_join]
  induction fields with
  | nil => rfl
  | cons field fields ih =>
    obtain ⟨name, value⟩ := field
    rw [List.map_cons, List.flatMap_cons, ih]
    cases value with
    | none => rfl
    | some n => simp [Settings.line, present, lines, Toml.line]

theorem all_fields_iff {bound : Nat} {s : Settings} :
    (s.fields.all fun field => field.2.all (· ≤ bound)) ↔ s.AtMost bound := by
  have hall : ∀ value : Option Nat, value.all (· ≤ bound) ↔ ∀ n, value = some n → n ≤ bound := by
    intro value
    cases value <;> simp
  simp only [fields, List.all_cons, List.all_nil, Bool.and_true, Bool.and_eq_true, hall]
  constructor
  · intro ⟨hstack, hmemory, harena, hcontexts, hdepth, hsteps⟩
    exact ⟨hstack _ rfl, hmemory _ rfl, harena, hcontexts, hdepth _ rfl, hsteps⟩
  · intro h
    refine ⟨?_, ?_, h.maxArenaSize, h.maxContexts, ?_, h.stepLimit⟩
    · simpa using h.stackSize
    · simpa using h.memorySize
    · simpa using h.maxCallDepth

/-! ## The table of settings -/

/-- The first meaning of a name among the present numbers is the one that the fields give it. -/
theorem lookup_present {fields : List (String × Option Nat)} (hnodup : (fields.map Prod.fst).Nodup)
    (name : String) : (present fields).lookup name = (fields.lookup name).join := by
  induction fields with
  | nil => rfl
  | cons field fields ih =>
    obtain ⟨first, value⟩ := field
    obtain ⟨hfirst, hrest⟩ := List.nodup_cons.mp hnodup
    by_cases h : name = first
    · subst h
      cases value with
      | some n => simp [present]
      | none =>
        -- an absent number is absent: the name does not come again
        have hnone : fields.lookup name = none := by
          rw [List.lookup_eq_none_iff]
          intro q hq
          have hne : name ≠ q.1 := fun heq => hfirst (List.mem_map.mpr ⟨q, hq, heq.symm⟩)
          simpa using hne
        calc (present fields).lookup name
          _ = (fields.lookup name).join := ih hrest
          _ = none := by rw [hnone]; rfl
          _ = (((name, none) :: fields).lookup name).join := by simp
    · have hne : (name == first) = false := by simpa using h
      cases value with
      | some n => simpa [present, List.lookup_cons, hne] using ih hrest
      | none => simpa [present, List.lookup_cons, hne] using ih hrest

theorem number?_present {fields : List (String × Option Nat)}
    (hnodup : (fields.map Prod.fst).Nodup) (name : String) :
    number? (entriesOf (present fields)) name = some (fields.lookup name).join := by
  rw [number?, lookup_entriesOf, lookup_present hnodup]
  cases (fields.lookup name).join <;> rfl

theorem nodup_fields (s : Settings) : (s.fields.map Prod.fst).Nodup := by
  simp [fields]

theorem bare_fields (s : Settings) : ∀ field ∈ s.fields, Bare field.1 := by
  have hnames : ∀ name ∈ s.fields.map Prod.fst, name.toList ≠ [] ∧ name.toList.all isNameChar := by
    simp only [fields, List.map_cons, List.map_nil]
    decide
  intro field hfield
  obtain ⟨hne, hall⟩ := hnames field.1 (List.mem_map_of_mem hfield)
  exact ⟨hne, List.all_eq_true.mp hall⟩

/-- Reading fills in exactly what writing has left out. -/
theorem ofEntries?_present (s : Settings) : ofEntries? (entriesOf (present s.fields)) = some s := by
  simp only [ofEntries?, number?_present s.nodup_fields]
  rfl

/-! ## Writing and reading -/

/-- **Settings survive being written and read**, if the format can hold their numbers, and are
refused otherwise. -/
theorem parse_render (s : Settings) :
    (s.AtMost (2 ^ 63 - 1) → ∃ text, s.render = .ok text ∧ parse text = .ok s) ∧
      (¬ s.AtMost (2 ^ 63 - 1) → s.render = .error .unwritable) := by
  have hiff : (s.fields.all fun field => field.2.all (· ≤ greatest)) ↔ s.AtMost (2 ^ 63 - 1) :=
    all_fields_iff
  constructor
  · intro hs
    have hsmall : ∀ p ∈ present s.fields, p.2 < 1 <<< 63 := by
      intro p hp
      have hle : p.2 ≤ greatest := by
        simpa using List.all_eq_true.mp (hiff.mpr hs) _ (mem_present.mp hp)
      exact Nat.lt_of_le_pred (by decide) hle
    have hbare : ∀ p ∈ present s.fields, Bare p.1 := fun p hp =>
      s.bare_fields _ (mem_present.mp hp)
    have hnodup : ((present s.fields).map Prod.fst).Nodup :=
      s.nodup_fields.sublist (map_fst_present_sublist s.fields)
    refine ⟨_, if_pos (hiff.mpr hs), ?_⟩
    rw [parse, parse?_lines hbare hsmall hnodup (toList_intercalate_line s.fields)]
    simp [ofEntries?_present]
  · intro hs
    exact if_neg fun hall => hs (hiff.mp hall)

/-- The greatest number of the format is written and read back, beside absent limits. One more, in
a limit alone, is refused. -/
theorem parse_render_greatest :
    (∃ text, render { stackSize := 0, maxArenaSize := some (2 ^ 63 - 1), stepLimit := some 0 } =
        .ok text ∧
      parse text = .ok { stackSize := 0, maxArenaSize := some (2 ^ 63 - 1), stepLimit := some 0 }) ∧
    render { maxContexts := some (2 ^ 63) } = .error .unwritable := by
  constructor
  · exact (parse_render _).1 ⟨by simp, by simp, by simp, by simp, by simp, by simp⟩
  · refine (parse_render _).2 fun h => ?_
    exact absurd (h.maxContexts _ rfl) (by decide)

end Hostcall.Settings
