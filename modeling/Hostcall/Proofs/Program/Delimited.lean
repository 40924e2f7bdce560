import Hostcall.Proofs.Attempt
import Hostcall.Proofs.Program.RoundTrip

/-!
# Accepted inputs are self-delimiting

An input that `Program.decode` accepts says itself where it ends. No strict prefix of it is
accepted, and the error is always that the input has ended; every extension of it is refused for
the bytes that are left over.

Both are facts about readers. `SelfDelimiting r` says that an accepted input starts with bytes that
the reader takes in front of any rest, and that the reader runs out of input on each strict prefix
of these bytes. Pure readers, `Read.take` and `Read.byte` are self-delimiting, and so is a sequence
of self-delimiting readers (`SelfDelimiting.bind`): a cut falls either into the bytes of the first
part, or into those of the second after the first has been read. The parts of the format are put
together in its order, up to `selfDelimiting_program` and `decode_cut_and_extended`.
-/

namespace Hostcall.Program

variable {α β : Type}

/-! ## Readers in sequence -/

/-- The reader takes exactly the bytes `bs` and gives `x`, and if the input ends before they do it
says so. -/
structure Delimits (r : Reader α) (bs : List UInt8) (x : α) : Prop where
  reads : Reads r bs x
  cut : ∀ short, short <+: bs → short ≠ bs → r short = .error .unexpectedEnd

/-- Every accepted input starts with bytes that delimit what is read. -/
def SelfDelimiting (r : Reader α) : Prop :=
  ∀ input x rest, r input = .ok (x, rest) → ∃ bs, input = bs ++ rest ∧ Delimits r bs x

/-- A sequence of readers succeeds if the first one does and the second one does on the rest. -/
theorem bind_run_eq_ok_iff {r : Reader α} {f : α → Reader β} {input rest : List UInt8} {y : β} :
    (r >>= f) input = .ok (y, rest) ↔
      ∃ x middle, r input = .ok (x, middle) ∧ f x middle = .ok (y, rest) := by
  change (r input >>= fun p => f p.1 p.2) = .ok (y, rest) ↔ _
  rw [Attempt.bind_eq_ok_iff, Prod.exists]

theorem Delimits.bind {r : Reader α} {f : α → Reader β} {bs cs : List UInt8} {x : α} {y : β}
    (hr : Delimits r bs x) (hf : Delimits (f x) cs y) : Delimits (r >>= f) (bs ++ cs) y := by
  refine ⟨hr.reads.bind hf.reads, ?_⟩
  rintro short ⟨missing, hmissing⟩ hne
  change (r short >>= fun p => f p.1 p.2) = .error .unexpectedEnd
  -- the cut falls into the bytes of the first reader or into those of the second
  rcases List.append_eq_append_iff.mp hmissing with ⟨left, hbs, -⟩ | ⟨read, hshort, hcs⟩
  · by_cases hleft : left = []
    · subst hleft
      rw [List.append_nil] at hbs
      subst hbs
      have hcs : cs ≠ [] := fun hnil => hne (by rw [hnil, List.append_nil])
      have hread := hr.reads []
      rw [List.append_nil] at hread
      rw [hread]
      exact hf.cut [] List.nil_prefix hcs.symm
    · have hcut : r short = .error .unexpectedEnd := by
        refine hr.cut short ⟨left, hbs.symm⟩ fun heq => hleft ?_
        rw [hbs] at heq
        exact List.self_eq_append_right.mp heq
      rw [hcut]
      rfl
  · subst hshort
    rw [hr.reads read]
    refine hf.cut read ⟨missing, hcs.symm⟩ fun heq => hne ?_
    rw [heq]

namespace SelfDelimiting

theorem pure (x : α) : SelfDelimiting (Pure.pure x) := by
  intro input y rest h
  cases h
  refine ⟨[], rfl, Reads.pure x, ?_⟩
  intro short hshort hne
  exact absurd (List.prefix_nil.mp hshort) hne

theorem throw (e : DecodeError) : SelfDelimiting (MonadExcept.throw e : Reader α) := by
  intro input x rest h
  cases h

theorem bind {r : Reader α} {f : α → Reader β} (hr : SelfDelimiting r)
    (hf : ∀ x, SelfDelimiting (f x)) : SelfDelimiting (r >>= f) := by
  intro input y rest h
  obtain ⟨x, middle, hx, hy⟩ := bind_run_eq_ok_iff.mp h
  obtain ⟨bs, rfl, hbs⟩ := hr input x middle hx
  obtain ⟨cs, rfl, hcs⟩ := hf x middle y rest hy
  exact ⟨bs ++ cs, (List.append_assoc ..).symm, hbs.bind hcs⟩

/-- A reader whose result is only wrapped up. -/
theorem bind_pure {r : Reader α} (hr : SelfDelimiting r) (f : α → β) :
    SelfDelimiting (r >>= fun x => Pure.pure (f x)) :=
  hr.bind fun x => pure (f x)

/-- A reader that first refuses what it has found out. -/
theorem refuse {c : Bool} {e : DecodeError} {f : Unit → Reader α} (hf : SelfDelimiting (f ())) :
    SelfDelimiting (if c then MonadExcept.throw e >>= f else f ()) := by
  cases c with
  | false => exact hf
  | true =>
    intro input x rest h
    cases h

end SelfDelimiting

/-! ## Bytes and words -/

theorem splitExact_eq_some_iff {n : Nat} {input front rest : List UInt8} :
    Read.splitExact n input = some (front, rest) ↔ input = front ++ rest ∧ front.length = n := by
  constructor
  · intro h
    induction n generalizing input front with
    | zero =>
      cases h
      exact ⟨rfl, rfl⟩
    | succ n ih =>
      cases input with
      | nil => cases h
      | cons b input =>
        obtain ⟨⟨front', rest'⟩, hsplit, hfront⟩ := Option.map_eq_some_iff.mp h
        cases hfront
        obtain ⟨rfl, hlen⟩ := ih hsplit
        exact ⟨rfl, congrArg (· + 1) hlen⟩
  · rintro ⟨rfl, rfl⟩
    exact splitExact_append front rest

theorem take_eq_ok_iff {n : Nat} {input front rest : List UInt8} :
    Read.take n input = .ok (front, rest) ↔ input = front ++ rest ∧ front.length = n := by
  rw [← splitExact_eq_some_iff, Read.take]
  cases Read.splitExact n input with
  | none => simp
  | some split => simp [Prod.ext_iff]

theorem splitExact_of_length_lt {n : Nat} {input : List UInt8} (h : input.length < n) :
    Read.splitExact n input = none := by
  cases hsplit : Read.splitExact n input with
  | none => rfl
  | some split =>
    obtain ⟨hinput, hlen⟩ := splitExact_eq_some_iff.mp hsplit
    rw [hinput, List.length_append] at h
    omega

theorem selfDelimiting_take (n : Nat) : SelfDelimiting (Read.take n) := by
  intro input front rest h
  obtain ⟨rfl, hlen⟩ := take_eq_ok_iff.mp h
  refine ⟨front, rfl, reads_take hlen, ?_⟩
  intro short hshort hne
  have hlt : short.length < n := by
    rw [← hlen]
    exact Nat.lt_of_le_of_ne hshort.length_le fun heq => hne (hshort.eq_of_length heq)
  rw [Read.take, splitExact_of_length_lt hlt]

theorem selfDelimiting_byte : SelfDelimiting Read.byte := by
  intro input b rest h
  cases input with
  | nil => cases h
  | cons c input =>
    cases h
    refine ⟨[b], rfl, reads_byte b, ?_⟩
    intro short hshort hne
    have hnil : short = [] := by
      rcases List.prefix_cons_iff.mp hshort with hnil | ⟨short', rfl, hprefix⟩
      · exact hnil
      · rw [List.prefix_nil.mp hprefix] at hne
        exact absurd rfl hne
    rw [hnil]
    rfl

theorem selfDelimiting_word : SelfDelimiting Read.word :=
  (selfDelimiting_take 4).bind_pure _

theorem selfDelimiting_flag : SelfDelimiting Read.flag :=
  selfDelimiting_byte.bind_pure _

/-! ## Lists and texts -/

theorem selfDelimiting_exactly {element : Reader α} (h : SelfDelimiting element) (n : Nat) :
    SelfDelimiting (Read.exactly element n) := by
  induction n with
  | zero => exact .pure []
  | succ n ih => exact h.bind fun x => ih.bind_pure _

theorem selfDelimiting_list {element : Reader α} (h : SelfDelimiting element) :
    SelfDelimiting (Read.list element) :=
  selfDelimiting_word.bind fun count => selfDelimiting_exactly h count.toNat

theorem selfDelimiting_bytes : SelfDelimiting Read.bytes :=
  selfDelimiting_word.bind fun count => selfDelimiting_take count.toNat

/-- The bytes of a text are taken before they are looked at, so a cut is noticed first. -/
theorem selfDelimiting_text : SelfDelimiting Read.text := by
  refine selfDelimiting_bytes.bind fun bs => ?_
  split
  · exact .pure _
  · exact .throw _

/-! ## The parts of a program -/

theorem selfDelimiting_dataItem : SelfDelimiting Read.dataItem := by
  refine selfDelimiting_byte.bind fun tag => ?_
  split
  · exact (selfDelimiting_take _).bind_pure _
  · split
    · exact selfDelimiting_bytes.bind_pure _
    · split
      · exact selfDelimiting_text.bind_pure _
      · exact .throw _

theorem selfDelimiting_instruction : SelfDelimiting Read.instruction := by
  refine selfDelimiting_byte.bind fun opcode => ?_
  have hword (f : UInt32 → Instruction) : SelfDelimiting (Read.word >>= fun n => pure (f n)) :=
    selfDelimiting_word.bind_pure f
  split
  case h_1 | h_2 | h_4 | h_5 | h_6 | h_10 | h_15 | h_16 | h_17 => exact hword _
  case h_3 | h_7 | h_8 | h_11 | h_12 | h_13 | h_18 => exact .pure _
  case h_9 => exact (selfDelimiting_list selfDelimiting_word).bind_pure _
  case h_14 => exact selfDelimiting_word.bind fun op => hword _
  case h_19 => exact .throw _

theorem selfDelimiting_result : SelfDelimiting Read.result :=
  selfDelimiting_flag.bind fun _ => selfDelimiting_word.bind_pure _

theorem selfDelimiting_label : SelfDelimiting Read.label :=
  selfDelimiting_text.bind fun _ => selfDelimiting_word.bind_pure _

theorem selfDelimiting_procedure : SelfDelimiting Read.procedure := by
  have hwords := selfDelimiting_list selfDelimiting_word
  refine selfDelimiting_text.bind fun _ => ?_
  refine selfDelimiting_flag.bind fun _ => ?_
  refine hwords.bind fun _ => ?_
  refine selfDelimiting_result.bind fun _ => ?_
  refine hwords.bind fun _ => ?_
  refine (selfDelimiting_list selfDelimiting_label).bind fun _ => ?_
  exact (selfDelimiting_list selfDelimiting_instruction).bind_pure _

theorem selfDelimiting_program : SelfDelimiting Read.program := by
  refine (selfDelimiting_take 4).bind fun front => ?_
  refine SelfDelimiting.refuse ?_
  refine selfDelimiting_word.bind fun v => ?_
  refine SelfDelimiting.refuse ?_
  refine (selfDelimiting_list selfDelimiting_text).bind fun _ => ?_
  refine selfDelimiting_word.bind fun _ => ?_
  refine (selfDelimiting_list selfDelimiting_dataItem).bind fun _ => ?_
  exact (selfDelimiting_list selfDelimiting_procedure).bind_pure _

/-! ## Whole inputs -/

theorem decode_eq_ok_iff {input : List UInt8} {p : Program} :
    decode input = .ok p ↔ Read.program input = .ok (p, []) := by
  unfold decode
  rw [Attempt.bind_eq_ok_iff, Prod.exists]
  constructor
  · rintro ⟨q, rest, hread, h⟩
    cases rest with
    | nil =>
      cases h
      exact hread
    | cons b rest => cases h
  · intro hread
    exact ⟨p, [], hread, rfl⟩

/-- **Self-delimiting inputs.** An accepted input that is cut anywhere is refused because it ends
too early, and one that is extended is refused because of the bytes that follow it. -/
theorem decode_cut_and_extended {input : List UInt8} {p : Program} (h : decode input = .ok p) :
    (∀ short, short <+: input → short ≠ input → decode short = .error .unexpectedEnd) ∧
      ∀ more, more ≠ [] → decode (input ++ more) = .error (.trailingBytes more.length) := by
  obtain ⟨bs, hinput, hbs⟩ := selfDelimiting_program _ _ _ (decode_eq_ok_iff.mp h)
  rw [List.append_nil] at hinput
  subst hinput
  refine ⟨?_, ?_⟩
  · intro short hshort hne
    unfold decode
    rw [hbs.cut short hshort hne]
    rfl
  · intro more hmore
    unfold decode
    rw [hbs.reads more]
    cases more with
    | nil => exact absurd rfl hmore
    | cons b more => rfl

/-- A program with a text of one letter, whose two bytes can be cut apart. -/
def greeting : Program where
  ops := #["hi"]
  data := [.text "é"]
  procedures := #[{ name := "main", exported := true, code := #[.opBegin, .opEnd 0 0] }]

theorem greeting_cut_and_extended :
    decode greeting.encode = .ok greeting ∧
      decode (greeting.encode.take 32) = .error .unexpectedEnd ∧
      decode (greeting.encode ++ [0, 7]) = .error (.trailingBytes 2) := by
  have haccepted : decode greeting.encode = .ok greeting := rfl
  obtain ⟨hcut, hextended⟩ := decode_cut_and_extended haccepted
  have hshorter : greeting.encode.take 32 ≠ greeting.encode := by decide +kernel
  exact ⟨haccepted, hcut _ (List.take_prefix 32 _) hshorter, hextended [0, 7] (by decide)⟩

end Hostcall.Program
