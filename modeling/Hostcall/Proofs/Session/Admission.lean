import Hostcall.Proofs.Machine.Creation
import Hostcall.Proofs.Session.Transitions

/-!
# Which contexts are started

A call that starts a context goes through checks in several places: of the sizes, of the entry, of
the number of contexts, of the heap for data and globals and of the stack for the first frame. Each
of them is an `iff` here, and together they are `Fits`: `register_eq_ok_iff`. What is checked last
is checked when the handle of the new context is known, but nothing is registered before
(`refused_or_handle`).
-/

namespace Hostcall.Session

open Attempt

variable {settings : Settings} {s : Session} {p : Program} {entry : String}
  {memorySize stackSize : Nat}

/-- The procedure is the first exported one of a name, and it takes and gives back nothing. -/
structure IsEntry (p : Program) (entry : String) (index : Nat) (procedure : Procedure) : Prop where
  found : p.procedures[index]? = some procedure
  exported : procedure.exported = true
  name : procedure.name = entry
  first : ∀ j < index, ∀ q, p.procedures[j]? = some q → ¬(q.exported = true ∧ q.name = entry)
  params : procedure.params = []
  result : procedure.result = none

/-- There is room for a context at a procedure of a program, where so many are registered. -/
structure Fits (settings : Settings) (registered : Nat) (p : Program) (procedure : Procedure)
    (stackSize memorySize : Nat) : Prop where
  stack : 0 < stackSize
  stack_aligned : 4 ∣ stackSize
  memory_aligned : 4 ∣ memorySize
  no_overflow : stackSize + memorySize < 2 ^ 64
  capacity : stackSize + memorySize ≤ 2 ^ 63 - 1
  arena : ∀ limit, settings.maxArenaSize = some limit → stackSize + memorySize ≤ limit
  contexts : ∀ limit, settings.maxContexts = some limit → registered < limit
  segments : p.dataSize + p.globalsSize.toNat ≤ memorySize
  locals : procedure.localsSize ≤ stackSize

/-- The context is at the start of a procedure and has executed nothing. -/
structure IsNew (h : Handle) (p : Program) (index : Nat) (procedure : Procedure) (c : Context) :
    Prop where
  handle : c.handle = h
  status : c.status = .running
  program : c.program = p
  frames : ∃ f, c.machine.frames = [f] ∧ f.procedure = index ∧ f.position = 0 ∧ f.pending = []
  addresses : c.machine.addresses = []
  top : c.arena.top = procedure.localsSize

/-! ## The checks -/

theorem checkSizes_eq_ok_iff :
    checkSizes settings stackSize memorySize = .ok () ↔
      0 < stackSize ∧ 4 ∣ stackSize ∧ 4 ∣ memorySize ∧ stackSize + memorySize < 2 ^ 64 ∧
      ∀ limit, settings.maxArenaSize = some limit → stackSize + memorySize ≤ limit := by
  have hsize : UInt64.size = 2 ^ 64 := rfl
  unfold checkSizes alignment
  split
  · refine iff_of_false (fun h => nomatch h) ?_
    rintro ⟨hpos, hstack, hmemory, hsum, -⟩
    omega
  · have haligned : 0 < stackSize ∧ 4 ∣ stackSize ∧ 4 ∣ memorySize ∧
        stackSize + memorySize < 2 ^ 64 := by omega
    obtain ⟨hpos, hstack, hmemory, hsum⟩ := haligned
    simp only [hpos, hstack, hmemory, hsum, true_and]
    split
    · rename_i limit hlimit
      simp only [hlimit, Option.some.injEq, forall_eq']
      split
      · exact iff_of_false (fun h => nomatch h) (by omega)
      · exact iff_of_true rfl (by omega)
    · rename_i hlimit
      simp [hlimit]

theorem findExported?_eq_some_iff {index : Nat} :
    p.findExported? entry = some index ↔
      ∃ procedure, p.procedures[index]? = some procedure ∧ procedure.exported = true ∧
        procedure.name = entry ∧
        ∀ j < index, ∀ q, p.procedures[j]? = some q → ¬(q.exported = true ∧ q.name = entry) := by
  unfold Program.findExported?
  rw [Array.findIdx?_eq_some_iff_getElem]
  simp only [Bool.and_eq_true, decide_eq_true_eq]
  constructor
  · rintro ⟨hindex, ⟨hexported, hname⟩, hfirst⟩
    refine ⟨_, Array.getElem?_eq_getElem hindex, hexported, hname, ?_⟩
    intro j hj q hq
    obtain ⟨_, rfl⟩ := Array.getElem?_eq_some_iff.mp hq
    exact hfirst j hj
  · rintro ⟨procedure, hfound, hexported, hname, hfirst⟩
    obtain ⟨hindex, rfl⟩ := Array.getElem?_eq_some_iff.mp hfound
    refine ⟨hindex, ⟨hexported, hname⟩, ?_⟩
    intro j hj
    exact hfirst j hj _ (Array.getElem?_eq_getElem (Nat.lt_trans hj hindex))

theorem findEntry_eq_ok_iff {index : Nat} :
    findEntry p entry = .ok index ↔ ∃ procedure, IsEntry p entry index procedure := by
  unfold findEntry
  constructor
  · intro h
    split at h
    · cases h
    · rename_i i hfind
      obtain ⟨procedure, hfound, hexported, hname, hfirst⟩ := findExported?_eq_some_iff.mp hfind
      simp only [hfound] at h
      split at h
      · rename_i hplain
        cases h
        simp only [Bool.and_eq_true, List.isEmpty_iff, Option.isNone_iff_eq_none] at hplain
        exact ⟨procedure, hfound, hexported, hname, hfirst, hplain.1, hplain.2⟩
      · cases h
  · rintro ⟨procedure, hentry⟩
    have hfind := findExported?_eq_some_iff.mpr
      ⟨procedure, hentry.found, hentry.exported, hentry.name, hentry.first⟩
    simp [hfind, hentry.found, hentry.params, hentry.result]

theorem checkRoom_eq_ok_iff :
    s.checkRoom = .ok () ↔
      ∀ limit, s.settings.maxContexts = some limit → s.registry.size < limit := by
  unfold checkRoom
  split
  · rename_i limit hlimit
    simp only [hlimit, Option.some.injEq, forall_eq']
    split
    · exact iff_of_false (fun h => nomatch h) (by omega)
    · exact iff_of_true rfl (by omega)
  · rename_i hlimit
    simp [hlimit]

theorem maxCapacity_eq : Arena.maxCapacity = 2 ^ 63 - 1 := by decide

theorem IsEntry.resultSize {index : Nat} {procedure : Procedure}
    (hentry : IsEntry p entry index procedure) : procedure.resultSize = 0 := by
  unfold Procedure.resultSize
  rw [hentry.result]

/-- A name has at most one entry. -/
theorem IsEntry.unique {i j : Nat} {q r : Procedure} (hi : IsEntry p entry i q)
    (hj : IsEntry p entry j r) : q = r := by
  rcases Nat.lt_trichotomy i j with hlt | rfl | hgt
  · exact absurd ⟨hi.exported, hi.name⟩ (hj.first i hlt q hi.found)
  · exact Option.some.inj (hi.found.symm.trans hj.found)
  · exact absurd ⟨hj.exported, hj.name⟩ (hi.first j hgt r hj.found)

/-- A context is created at an entry if and only if its arena can be had, its data and globals fit
into the heap and its locals onto the stack. -/
theorem create_eq_ok_iff_of_isEntry {room depthLimit index : Nat} {handle : Handle}
    {procedure : Procedure} {c : Context} (hroom : Arena.maxCapacity ≤ room)
    (hentry : IsEntry p entry index procedure) :
    Context.create room handle p index stackSize memorySize depthLimit = .ok c ↔
      stackSize + memorySize ≤ 2 ^ 63 - 1 ∧ p.dataSize + p.globalsSize.toNat ≤ memorySize ∧
      procedure.localsSize ≤ stackSize ∧
      c = Context.created handle p index procedure stackSize memorySize depthLimit := by
  rw [Context.create_eq_ok_iff, Nat.min_eq_right hroom, maxCapacity_eq]
  simp only [hentry.found, Option.some.injEq, exists_eq_left', hentry.resultSize, Nat.zero_add]

theorem isNew_created {depthLimit index : Nat} {h : Handle} {procedure : Procedure}
    (hentry : IsEntry p entry index procedure) :
    IsNew h p index procedure
      (Context.created h p index procedure stackSize memorySize depthLimit) := by
  refine ⟨rfl, rfl, rfl, ⟨_, rfl, rfl, rfl, rfl⟩, rfl, ?_⟩
  have htop : (Context.created h p index procedure stackSize memorySize depthLimit).arena.top =
      0 + (List.replicate (procedure.resultSize + procedure.localsSize) (0 : UInt8)).length := rfl
  rw [htop, List.length_replicate, hentry.resultSize, Nat.zero_add, Nat.zero_add]

/-! ## Starting -/

/-- **Admission.** A context is registered if and only if the entry is one and everything fits. -/
theorem register_eq_ok_iff {h : Handle} {registry : Registry Resident}
    (hroom : Arena.maxCapacity ≤ s.room) :
    s.register p entry memorySize stackSize = .ok (h, registry) ↔
      ∃ index procedure, IsEntry p entry index procedure ∧
        Fits s.settings s.registry.size p procedure stackSize memorySize ∧
        h = s.registry.nextHandle ∧
        registry = s.registry.insert (.idle (Context.created h p index procedure stackSize
          memorySize s.settings.maxCallDepth)) := by
  constructor
  · intro hregister
    obtain ⟨index, c, hsizes, hfound, hcount, hcreate, rfl, rfl⟩ := register_eq_ok hregister
    obtain ⟨procedure, hentry⟩ := findEntry_eq_ok_iff.mp hfound
    obtain ⟨hcapacity, hsegments, hlocals, rfl⟩ :=
      (create_eq_ok_iff_of_isEntry hroom hentry).mp hcreate
    obtain ⟨hstack, haligned, hmemory, hsum, hlimit⟩ := checkSizes_eq_ok_iff.mp hsizes
    exact ⟨index, procedure, hentry, ⟨hstack, haligned, hmemory, hsum, hcapacity, hlimit,
      checkRoom_eq_ok_iff.mp hcount, hsegments, hlocals⟩, rfl, rfl⟩
  · rintro ⟨index, procedure, hentry, hfits, rfl, rfl⟩
    have hsizes := checkSizes_eq_ok_iff.mpr ⟨hfits.stack, hfits.stack_aligned,
      hfits.memory_aligned, hfits.no_overflow, hfits.arena⟩
    have hcreate : Context.create s.room s.registry.nextHandle p index stackSize memorySize
        s.settings.maxCallDepth = .ok _ :=
      (create_eq_ok_iff_of_isEntry hroom hentry).mpr
        ⟨hfits.capacity, hfits.segments, hfits.locals, rfl⟩
    refine bind_eq_ok_iff.mpr ⟨(), hsizes, ?_⟩
    refine bind_eq_ok_iff.mpr ⟨index, findEntry_eq_ok_iff.mpr ⟨procedure, hentry⟩, ?_⟩
    refine bind_eq_ok_iff.mpr ⟨(), checkRoom_eq_ok_iff.mpr hfits.contexts, ?_⟩
    unfold Registry.insertWith
    dsimp only
    rw [hcreate]
    rfl

theorem startProgram_eq_handle_iff {h : Handle} {t : Session} :
    s.startProgram p entry memorySize stackSize = (.handle h, t) ↔
      ∃ registry, s.register p entry memorySize stackSize = .ok (h, registry) ∧
        t = { s with registry } := by
  unfold startProgram
  split
  · rename_i cause hregister
    rw [hregister]
    refine iff_of_false (fun hreply => nomatch hreply) ?_
    rintro ⟨_, hok, -⟩
    cases hok
  · rename_i h' registry hregister
    rw [hregister]
    constructor
    · intro hreply
      cases hreply
      exact ⟨registry, rfl, rfl⟩
    · rintro ⟨_, hok, rfl⟩
      cases hok
      rfl

/-- A call that starts a context. -/
def starts : Call → Bool
  | .start .. | .startProgram .. | .fork .. => true
  | _ => false

/-- A call that starts a context and does not give its handle changes nothing. -/
theorem refused_or_handle {call : Call} (hcall : starts call = true) :
    (∃ h t, s.call call = (.handle h, t)) ∨ ∃ cause, s.call call = (.refused cause, s) := by
  have hprogram : ∀ p entry memorySize stackSize,
      (∃ h t, s.startProgram p entry memorySize stackSize = (.handle h, t)) ∨
        ∃ cause, s.startProgram p entry memorySize stackSize = (.refused cause, s) := by
    intro p entry memorySize stackSize
    rcases startProgram_cases s p entry memorySize stackSize with hrefused | ⟨_, _, _, _, _, _, h⟩
    · exact .inr hrefused
    · exact .inl ⟨_, _, h⟩
  cases call with
  | start bytecode entry memorySize stackSize =>
    simp only [call, start]
    split
    · exact .inr ⟨_, rfl⟩
    · exact hprogram _ _ _ _
  | startProgram p entry memorySize stackSize => exact hprogram _ _ _ _
  | fork parent entry memorySize stackSize =>
    simp only [call, fork]
    split
    · exact .inr ⟨_, rfl⟩
    · exact hprogram _ _ _ _
  | _ => cases hcall

theorem Transition.room_eq {t : Session} {reply : Reply} (h : s.Transition reply t) :
    t.room = s.room := by
  cases h with
  | stay | issue | launch | discard | execute | inspect | onward | checkIn | close | drop
    | cancel => rfl

theorem room_callAll (s : Session) (calls : List Call) : (s.callAll calls).2.room = s.room := by
  induction calls generalizing s with
  | nil => rfl
  | cons c rest ih => exact (ih _).trans (transition_call s c).room_eq

/-- **Which contexts are started.** Take any history of an engine on a machine that provides an
arena of any size that there can be. A context is started if and only if the entry is the first
exported procedure of its name, has neither parameters nor a result, and everything fits: the stack
is not empty, both sizes are multiples of four, their sum is no more than an arena can have and no
more than the settings allow, one more context may be registered, data and globals fit into the heap
and the locals of the entry onto the stack. The context is then registered under the next handle; it
is at the start of the entry with nothing but the locals on its stack. In every other case, and
whenever a call that starts a context from bytecode or from the program of another context is
refused, the engine stays as it is. -/
theorem start_admits_what_fits (settings : Settings) {room : Nat}
    (hroom : Arena.maxCapacity ≤ room) (calls : List Call) :
    let s := (callAll { settings, room } calls).2
    (∀ p entry memorySize stackSize,
      ((∃ h t, s.startProgram p entry memorySize stackSize = (.handle h, t)) ↔
        ∃ index procedure, IsEntry p entry index procedure ∧
          Fits settings s.registry.handles.length p procedure stackSize memorySize) ∧
      ∀ h t, s.startProgram p entry memorySize stackSize = (.handle h, t) →
        ∃ index procedure c, IsEntry p entry index procedure ∧ IsNew h p index procedure c ∧
          h = s.registry.nextHandle ∧ t = { s with registry := s.registry.insert (.idle c) } ∧
          (s.registry.slots.size < UInt32.size → t.registry.get? h = some (.idle c))) ∧
    ∀ call, starts call = true →
      (∃ h t, s.call call = (.handle h, t)) ∨ ∃ cause, s.call call = (.refused cause, s) := by
  intro s
  have htable : s.registry.WellFormed := wellFormed_callAll Registry.wellFormed_empty calls
  have hsettings : s.settings = settings := settings_callAll _ calls
  have hprovides : Arena.maxCapacity ≤ s.room := by
    rw [show s.room = room from room_callAll _ calls]
    exact hroom
  refine ⟨fun p entry memorySize stackSize => ⟨?_, ?_⟩, fun call hcall => refused_or_handle hcall⟩
  · rw [← hsettings, ← htable.size_eq_length_handles]
    constructor
    · rintro ⟨h, t, hstart⟩
      obtain ⟨registry, hregister, -⟩ := startProgram_eq_handle_iff.mp hstart
      obtain ⟨index, procedure, hentry, hfits, -⟩ := (register_eq_ok_iff hprovides).mp hregister
      exact ⟨index, procedure, hentry, hfits⟩
    · rintro ⟨index, procedure, hentry, hfits⟩
      have hregister := (register_eq_ok_iff hprovides).mpr
        ⟨index, procedure, hentry, hfits, rfl, rfl⟩
      exact ⟨_, _, startProgram_eq_handle_iff.mpr ⟨_, hregister, rfl⟩⟩
  · intro h t hstart
    obtain ⟨registry, hregister, rfl⟩ := startProgram_eq_handle_iff.mp hstart
    obtain ⟨index, procedure, hentry, -, rfl, rfl⟩ := (register_eq_ok_iff hprovides).mp hregister
    exact ⟨index, procedure, _, hentry, isNew_created hentry, rfl, rfl,
      fun hslots => Registry.get?_insert_nextHandle htable hslots _⟩

/-- A program with four bytes for data and globals and eight for the locals of its entry. -/
def snug : Program where
  globalsSize := 1
  data := [.bytes [1, 2, 3]]
  procedures := #[
    { name := "main", result := some 4 },
    { name := "main", exported := true, locals := [3, 5] }]

/-- One context of twelve bytes is allowed. -/
def snugSettings : Settings := { maxArenaSize := some 12, maxContexts := some 1 }

theorem isEntry_snug : IsEntry snug "main" 1 snug.procedures[1] := by
  refine ⟨rfl, rfl, rfl, ?_, rfl, rfl⟩
  intro j hj q hq
  cases Nat.lt_one_iff.mp hj
  cases hq
  exact fun h => nomatch h.1

/-- It is started where it just fits, with its locals on the stack, but not a second time, and not
where the stack is too small for the locals. -/
theorem snug_is_started_once :
    let s : Session := { settings := snugSettings }
    (∃ h t c, s.startProgram snug "main" 4 8 = (.handle h, t) ∧
      t.registry.get? h = some (.idle c) ∧ c.arena.top = 8) ∧
    (¬∃ h t, (s.callAll [.startProgram snug "main" 4 8]).2.startProgram snug "main" 4 8 =
      (.handle h, t)) ∧
    ∃ cause, s.call (.startProgram snug "main" 4 4) = (.refused cause, s) := by
  intro s
  obtain ⟨hstarts, hrefused⟩ := start_admits_what_fits snugSettings (Nat.le_refl _) []
  refine ⟨?_, ?_, ?_⟩
  · obtain ⟨hiff, hnew⟩ := hstarts snug "main" 4 8
    obtain ⟨h, t, hstarted⟩ := hiff.mpr ⟨1, _, isEntry_snug, by decide, by decide, by decide,
      by decide, by decide, by rintro limit ⟨⟩; decide, by rintro limit ⟨⟩; decide, by decide,
      by decide⟩
    obtain ⟨index, procedure, c, hentry, hc, -, -, hget⟩ := hnew h t hstarted
    refine ⟨h, t, c, hstarted, hget (by decide), ?_⟩
    rw [hc.top, hentry.unique isEntry_snug]
    decide
  · intro hstarted
    obtain ⟨index, procedure, -, hfits⟩ := (((start_admits_what_fits snugSettings (Nat.le_refl _)
      [.startProgram snug "main" 4 8]).1 _ _ _ _).1).mp hstarted
    have hcount := hfits.contexts 1 rfl
    revert hcount
    decide +kernel
  · refine (hrefused (.startProgram snug "main" 4 4) rfl).resolve_left fun hstarted => ?_
    obtain ⟨index, procedure, hentry, hfits⟩ := (hstarts snug "main" 4 4).1.mp hstarted
    have hlocals := hfits.locals
    rw [hentry.unique isEntry_snug] at hlocals
    revert hlocals
    decide

end Hostcall.Session
