import Hostcall.Proofs.Session.CallDepth
import Hostcall.Proofs.Session.Labels
import Hostcall.Proofs.Word.Addresses

/-!
# No sum leaves 64 bits

`Program.AddsUp` and `Machine.AddsUp` list what is added up for a program and by a machine that runs
it. `arithmetic_never_wraps` says that all of it can be added up in words: of every program that has
been read from fewer than `2 ^ 63` bytes, in every context that runs it, at every time. Nothing is
asked of the host or of the code of the program, which need not have been checked.
-/

namespace Hostcall

open Attempt
open Careful (Agrees)

/-- The sizes of a program are the same with sums of 64 bits, and so is every context that is made
for it. -/
structure Program.AddsUp (p : Program) : Prop where
  params : ∀ q ∈ p.procedures, Careful.total q.params = some q.paramsSize
  locals : ∀ q ∈ p.procedures, Careful.total q.locals = some q.localsSize
  data : Careful.dataSize p = some p.dataSize
  create : ∀ room handle entry stackSize memorySize depthLimit,
    Agrees (Careful.create room handle p entry stackSize memorySize depthLimit)
      (Context.create room handle p entry stackSize memorySize depthLimit)

theorem Program.Measured.addsUp {p : Program} (h : p.Measured) : p.AddsUp where
  params q hq := Careful.total_of_lt (h.params q hq)
  locals q hq := Careful.total_of_lt (h.locals q hq)
  data := Careful.dataSize_of_lt h.data
  create := Careful.agrees_create h

/-- The offset of an instruction that pushes the address of a byte of the data, the parameters, the
locals or the globals. -/
def Instruction.displacement? : Instruction → Option UInt32
  | .dataAddress distance | .paramsAddress distance | .localsAddress distance
  | .globalsAddress distance => some distance
  | _ => none

/-- Everything that an arena adds up comes to the same with sums of 64 bits. -/
structure Arena.AddsUp (a : Arena) : Prop where
  allocStack : ∀ size, Agrees (Careful.allocStack a size) (a.allocStack size)
  allocMemory : ∀ size, Agrees (Careful.allocMemory a size) (a.allocMemory size)
  deallocMemory : ∀ address, Agrees (Careful.deallocMemory a address) (a.deallocMemory address)
  info : Careful.info a = some a.info

theorem Arena.Provided.addsUp {stackSize memorySize : Nat} {a : Arena}
    (h : a.Provided stackSize memorySize) : a.AddsUp where
  allocStack := Careful.agrees_allocStack h
  allocMemory := Careful.agrees_allocMemory h
  deallocMemory := Careful.agrees_deallocMemory h
  info := Careful.info_eq h

namespace Machine

/-- The place from which such an instruction of a frame of a procedure counts, if there is one. -/
def origin? (m : Machine) (f : Frame) (p : Procedure) : Instruction → Option Nat
  | .dataAddress _ => m.dataBase
  | .paramsAddress _ => some f.paramsBase
  | .localsAddress _ => if p.locals.isEmpty then none else some f.localsBase
  | .globalsAddress _ => m.globalsBase
  | _ => none

/-- The machine with other calls in progress, after requests to its arena. -/
def amid (m : Machine) (actions : List Arena.Action) (frames : List Frame) : Machine :=
  { m with arena := m.arena.performAll actions, frames }

/-- Everything that a machine adds up comes to the same with sums of 64 bits. Instructions and hosts
make their requests to the arena one after the other, so this is said of what any requests lead to,
and it is said whatever calls are in progress. -/
structure AddsUp (m : Machine) : Prop where
  arena : ∀ actions, (m.arena.performAll actions).AddsUp
  /-- A procedure is entered only as long as the limit on calls has not been reached. -/
  enter : ∀ actions frames index arguments, frames.length < m.depthLimit →
    Agrees (Careful.enter (m.amid actions frames) index arguments)
      ((m.amid actions frames).enter index arguments)
  leave : ∀ actions frames,
    Agrees (Careful.leave (m.amid actions frames)) (m.amid actions frames).leave
  /-- An address is pushed if and only if there is a place to count from, and it is the sum. -/
  pushes : ∀ f callers p i offset e, m.At f callers p i → i.displacement? = some offset →
    (m.step = .ok e ↔ ∃ base, m.origin? f p i = some base ∧ base + offset.toNat < UInt64.size ∧
      e = .next { m with
        frames := Frame.push { f with position := f.position + 1 } (base + offset.toNat) ::
          callers })
  /-- An address is a word, and it is displaced unless that leads out of 64 bits. -/
  displaces : ∀ f callers p distance address rest, m.At f callers p (.offset distance) →
    f.addresses = address :: rest →
    address < UInt64.size ∧
    (m.step = .error (.arena (.outOfBounds address distance.toNat m.arena.capacity)) ↔
      UInt64.size ≤ address + distance.toNat) ∧
    (address + distance.toNat < UInt64.size → m.step = .ok (.next { m with
      frames := { f with
        position := f.position + 1
        addresses := (address + distance.toNat) :: rest } :: callers }))

variable {stackSize memorySize : Nat} {m : Machine} {f : Frame} {callers : List Frame}
  {p : Procedure} {i : Instruction} {base : Nat}

theorem Grounded.origin_le (hm : m.Grounded stackSize memorySize) (hf : f ∈ m.frames)
    (h : m.origin? f p i = some base) : base ≤ stackSize + memorySize := by
  obtain ⟨hparams, hlocals, _⟩ := (hm.frames f hf).places
  cases i with
  | dataAddress => exact hm.dataBase base h
  | paramsAddress =>
    cases h
    omega
  | localsAddress =>
    obtain ⟨_, hbase⟩ := Option.ite_none_left_eq_some.mp h
    cases hbase
    omega
  | globalsAddress => exact hm.globalsBase base h
  | _ => cases h

/-- What an instruction that counts from a place leads to. -/
theorem At.step_eq_ok_iff {offset : UInt32} {e : Effect} (hat : m.At f callers p i)
    (hi : i.displacement? = some offset) :
    m.step = .ok e ↔ ∃ base, m.origin? f p i = some base ∧ e = .next { m with
      frames := Frame.push { f with position := f.position + 1 } (base + offset.toNat) ::
        callers } := by
  rw [hat.step_eq]
  cases i with
  | dataAddress | globalsAddress =>
    cases hi
    simp only [execute, origin?]
    split
    · rename_i hnone
      simp [hnone]
    · rename_i base hsome
      simp only [hsome, Option.some.injEq, exists_eq_left', Except.ok.injEq]
      exact eq_comm
  | paramsAddress =>
    cases hi
    simp only [execute, origin?, Option.some.injEq, exists_eq_left', Except.ok.injEq]
    exact eq_comm
  | localsAddress =>
    cases hi
    simp only [execute, origin?]
    split
    · simp
    · simp only [Option.some.injEq, exists_eq_left', Except.ok.injEq]
      exact eq_comm
  | _ => cases hi

theorem At.step_offset {distance : UInt32} {address : Nat} {rest : List Nat}
    (hat : m.At f callers p (.offset distance)) (haddresses : f.addresses = address :: rest) :
    m.step =
      if address + distance.toNat < UInt64.size then
        .ok (.next { m with
          frames := { f with
            position := f.position + 1
            addresses := (address + distance.toNat) :: rest } :: callers })
      else .error (.arena (.outOfBounds address distance.toNat m.arena.capacity)) := by
  have hpop : Frame.pop { f with position := f.position + 1 } f.position =
      .ok (address, { f with position := f.position + 1, addresses := rest }) := by
    unfold Frame.pop
    simp only [haddresses]
  rw [hat.step_eq]
  by_cases hlt : address + distance.toNat < UInt64.size
  · have hdisplace : displace m.arena address distance.toNat = _ := if_pos hlt
    rw [if_pos hlt]
    exact bind_eq_ok_iff.mpr ⟨_, hpop, bind_eq_ok_iff.mpr ⟨_, hdisplace, rfl⟩⟩
  · have hdisplace : displace m.arena address distance.toNat = _ := if_neg hlt
    rw [if_neg hlt]
    exact bind_eq_error_iff.mpr (.inr ⟨_, hpop, bind_eq_error_iff.mpr (.inl hdisplace)⟩)

theorem Grounded.provided_performAll (hm : m.Grounded stackSize memorySize)
    (actions : List Arena.Action) : (m.arena.performAll actions).Provided stackSize memorySize :=
  ⟨Arena.wellFormed_performAll hm.sound actions, hm.capacity_le⟩

theorem Grounded.addsUp (hm : m.Grounded stackSize memorySize) (hmeasured : m.program.Measured)
    (hdepth : m.depthLimit < UInt64.size) : m.AddsUp where
  arena actions := (hm.provided_performAll actions).addsUp
  enter actions frames index arguments hlimit := by
    have hcount : frames.length + 1 < UInt64.size := by omega
    exact Careful.agrees_enter (m := m.amid actions frames) (hm.provided_performAll actions)
      hmeasured hcount index arguments
  leave actions frames :=
    Careful.agrees_leave (m := m.amid actions frames) (hm.provided_performAll actions)
  pushes f callers p i offset e hat hi := by
    have hf : f ∈ m.frames := by
      rw [hat.frames]
      exact List.mem_cons_self
    rw [hat.step_eq_ok_iff hi]
    constructor
    · rintro ⟨base, hbase, rfl⟩
      exact ⟨base, hbase, hm.place_lt (hm.origin_le hf hbase) offset, rfl⟩
    · rintro ⟨base, hbase, _, rfl⟩
      exact ⟨base, hbase, rfl⟩
  displaces f callers p distance address rest hat haddresses := by
    have hword : address < UInt64.size := by
      have hwords := (hm.cons hat.frames).1
      exact hwords address (by rw [haddresses]; exact List.mem_cons_self)
    rw [hat.step_offset haddresses]
    by_cases hlt : address + distance.toNat < UInt64.size
    · rw [if_pos hlt]
      exact ⟨hword, iff_of_false nofun (Nat.not_le.mpr hlt), fun _ => rfl⟩
    · rw [if_neg hlt]
      exact ⟨hword, iff_of_true rfl (Nat.le_of_not_lt hlt), fun h => absurd h hlt⟩

/-- **Histories.** -/
theorem Reachable.addsUp {allowed : Machine → Wish → Prop} {stage : Stage} {n : Machine}
    {outer : List Frame} (h : m.Reachable allowed stage) (hn : unwind outer m = .ok n)
    (hmeasured : m.program.Measured) (hdepth : m.depthLimit < UInt64.size) : n.AddsUp := by
  obtain ⟨stackSize, memorySize, hm, _⟩ := h.grounded
  have hsame := (sameSetup_unwind outer m).ok hn
  rw [← hsame.program] at hmeasured
  rw [← hsame.depthLimit] at hdepth
  exact (hm.unwind hn).addsUp hmeasured hdepth

end Machine

namespace Session

/-- **Sums are words.** Take any history of an engine and any program that has been read from fewer
than `2 ^ 63` bytes. The sizes of its parameters, locals and data add up, and contexts for it are
made without a sum that is no word. In every context that runs it, all that is added up is a word as
well, also after any of the returns that are due. The limit on calls is a word like every
setting. -/
theorem arithmetic_never_wraps (settings : Settings) (room : Nat) (calls : List Call)
    {input : List UInt8} {p : Program} (hdecode : Program.decode input = .ok p)
    (hlength : input.length < 2 ^ 63) (hdepth : settings.maxCallDepth < UInt64.size) :
    let s := (callAll { settings, room } calls).2
    p.AddsUp ∧
    (∀ c, s.registry.Holds (.idle c) → c.program = p →
      ∀ outer m, Machine.unwind outer c.machine = .ok m → m.AddsUp) ∧
    ∀ a ∈ s.active, a.context.program = p →
      ∀ outer m, Machine.unwind outer a.context.machine = .ok m → m.AddsUp := by
  intro s
  have hmeasured := Program.measured_of_decode hdecode hlength
  have hs : s.Tracked fun _ _ _ => True := tracked_history settings room (abidesAll_any _ _)
  have hallots : s.Allots settings.maxCallDepth := allots_history settings room calls
  refine ⟨hmeasured.addsUp, fun c hc hprogram outer m hm => ?_,
    fun a ha hprogram outer m hm => ?_⟩
  · subst hprogram
    rw [← hallots.idle c hc] at hdepth
    exact (hs.idle c hc).addsUp hm hmeasured hdepth
  · subst hprogram
    rw [← hallots.active a ha] at hdepth
    exact (hs.active a ha).addsUp hm hmeasured hdepth

/-- A program that goes as far beyond its data as an instruction can. -/
def roaming : Program where
  data := [.text "hier"]
  procedures := #[{
    name := "main"
    exported := true
    locals := [1]
    code := #[.dataAddress 4294967295, .offset 4294967295] }]

/-- The first instruction has been executed. -/
def roamingAway : List Call := [.start roaming.encode "main" 16 4, .resume ⟨0, 1⟩, .tick]

theorem decode_roaming : Program.decode roaming.encode = .ok roaming := by
  have hread : (Program.decode roaming.encode).toOption = some roaming := by decide +kernel
  cases hdecode : Program.decode roaming.encode with
  | error e =>
    rw [hdecode] at hread
    cases hread
  | ok p =>
    rw [hdecode] at hread
    rw [Option.some.inj hread]

theorem roaming_adds_up :
    Program.decode roaming.encode = .ok roaming ∧ roaming.encode.length < 2 ^ 63 ∧
    roaming.AddsUp ∧
    ∃ a, (callAll { room := 64 } roamingAway).2.active = [a] ∧ a.context.program = roaming ∧
      a.context.machine.addresses = [4294967299] ∧ a.context.machine.AddsUp := by
  have hlength : roaming.encode.length < 2 ^ 63 := by decide +kernel
  have hseen : (callAll { room := 64 } roamingAway).2.active.map
      (fun a => (a.context.program, a.context.machine.addresses)) =
      [(roaming, [4294967299])] := by decide +kernel
  obtain ⟨a, ha, hpair⟩ := List.map_eq_singleton_iff.mp hseen
  obtain ⟨hprogram, _, hactive⟩ :=
    arithmetic_never_wraps {} 64 roamingAway decode_roaming hlength (by decide)
  have hsame : a.context.program = roaming := congrArg (·.1) hpair
  exact ⟨decode_roaming, hlength, hprogram, a, ha, hsame, congrArg (·.2) hpair,
    hactive a (by rw [ha]; exact List.mem_singleton_self a) hsame [] _ rfl⟩

end Session

end Hostcall
