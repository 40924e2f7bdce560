import Hostcall.Program.Codec

/-!
# Reading what has been written

`Program.decode` gives back the program that `Program.encode` has written, as long as no length is
too large for its field of four bytes.

`Reads r bs x` says that the reader `r` takes exactly `bs` from the front of its input, whatever
follows, and gives `x`. Readers in sequence read bytes in sequence (`Reads.bind`), so for each part
of the format there is one lemma: the reader of the part reads what its writer writes. The parts
are put together in the order of the format, up to `reads_program` and `decode_encode`.
-/

namespace Hostcall

/-! ## Lengths -/

/-- What the field of a length can hold. -/
def lengthLimit : Nat := UInt32.size

/-- The length that is written for a data item, zero if there is none. -/
def DataItem.lengthField : DataItem → Nat
  | .scalar _ => 0
  | .bytes bs => bs.length
  | .text t => t.utf8ByteSize

/-- The length that is written for an instruction, zero if there is none. -/
def Instruction.lengthField : Instruction → Nat
  | .tuple sizes => sizes.length
  | _ => 0

/-- All lengths of a procedure can be written. -/
structure Procedure.Sized (p : Procedure) : Prop where
  name : p.name.utf8ByteSize < lengthLimit
  params : p.params.length < lengthLimit
  locals : p.locals.length < lengthLimit
  labels : p.labels.length < lengthLimit
  labelNames : ∀ l ∈ p.labels, l.1.utf8ByteSize < lengthLimit
  code : p.code.size < lengthLimit
  instructions : ∀ i ∈ p.code, i.lengthField < lengthLimit

/-- All lengths of a program can be written. -/
structure Program.Sized (p : Program) : Prop where
  ops : p.ops.size < lengthLimit
  opNames : ∀ name ∈ p.ops, name.utf8ByteSize < lengthLimit
  data : p.data.length < lengthLimit
  dataItems : ∀ item ∈ p.data, item.lengthField < lengthLimit
  procedures : p.procedures.size < lengthLimit
  procedure : ∀ procedure ∈ p.procedures, procedure.Sized

namespace Program

/-! ## Readers in sequence -/

/-- A reader takes exactly the bytes `bs` from the front of its input and gives `x`. -/
def Reads {α : Type} (r : Reader α) (bs : List UInt8) (x : α) : Prop :=
  ∀ rest, r (bs ++ rest) = .ok (x, rest)

namespace Reads

variable {α β : Type} {r : Reader α} {bs cs : List UInt8} {x : α}

theorem pure (x : α) : Reads (Pure.pure x) [] x := fun _ => rfl

theorem bind {f : α → Reader β} {y : β} (hr : Reads r bs x) (hf : Reads (f x) cs y) :
    Reads (r >>= f) (bs ++ cs) y := by
  intro rest
  change (r (bs ++ cs ++ rest) >>= fun p => f p.1 p.2) = .ok (y, rest)
  rw [List.append_assoc, hr]
  exact hf rest

/-- A reader whose result is only wrapped up. -/
theorem bind_pure {f : α → β} (hr : Reads r bs x) :
    Reads (r >>= fun a => Pure.pure (f a)) bs (f x) := by
  have h : Reads (r >>= fun a => Pure.pure (f a)) (bs ++ []) (f x) := hr.bind (Reads.pure (f x))
  rwa [List.append_nil] at h

end Reads

/-! ## Bytes and words -/

theorem splitExact_append (bs rest : List UInt8) :
    Read.splitExact bs.length (bs ++ rest) = some (bs, rest) := by
  induction bs with
  | nil => rfl
  | cons b bs ih =>
    simp only [List.length_cons, List.cons_append, Read.splitExact, ih, Option.map_some]

theorem reads_take {bs : List UInt8} {n : Nat} (h : bs.length = n) :
    Reads (Read.take n) bs bs := by
  intro rest
  rw [← h, Read.take, splitExact_append]

theorem reads_byte (b : UInt8) : Reads Read.byte [b] b := fun _ => rfl

theorem reads_word (v : UInt32) : Reads Read.word (Write.word v) v := by
  have hlt : v.toNat < Bytes.limit 4 := v.toNat_lt
  have h := (reads_take (Bytes.length_ofNat 4 v.toNat)).bind_pure
    (f := fun bs => UInt32.ofNat (Bytes.toNat bs))
  rw [Bytes.toNat_ofNat_of_lt hlt, UInt32.ofNat_toNat] at h
  exact h

theorem reads_flag (b : Bool) : Reads Read.flag (Write.flag b) b := by
  cases b with
  | false => exact (reads_byte 0).bind_pure
  | true => exact (reads_byte 1).bind_pure

/-! ## Lists and texts -/

section

variable {α : Type} {element : Reader α} {write : α → List UInt8} {xs : List α}

theorem reads_exactly (h : ∀ x ∈ xs, Reads element (write x) x) :
    Reads (Read.exactly element xs.length) (xs.flatMap write) xs := by
  induction xs with
  | nil => exact Reads.pure []
  | cons x xs ih =>
    have hx := h x List.mem_cons_self
    have hxs := ih fun y hy => h y (List.mem_cons_of_mem _ hy)
    exact hx.bind hxs.bind_pure

/-- A length that fits its field is read back, and with it as many elements. -/
theorem toNat_ofNat_length (h : xs.length < lengthLimit) :
    (UInt32.ofNat xs.length).toNat = xs.length :=
  UInt32.toNat_ofNat_of_lt' h

theorem reads_list (hlen : xs.length < lengthLimit) (h : ∀ x ∈ xs, Reads element (write x) x) :
    Reads (Read.list element) (Write.list write xs) xs := by
  refine (reads_word _).bind ?_
  rw [toNat_ofNat_length hlen]
  exact reads_exactly h

end

theorem reads_bytes {bs : List UInt8} (h : bs.length < lengthLimit) :
    Reads Read.bytes (Write.bytes bs) bs := by
  refine (reads_word _).bind ?_
  rw [toNat_ofNat_length h]
  exact reads_take rfl

theorem fromUTF8?_toUTF8 (t : String) :
    String.fromUTF8? ⟨t.toUTF8.data.toList.toArray⟩ = some t := by
  have h : (⟨t.toUTF8.data.toList.toArray⟩ : ByteArray) = t.toByteArray := by simp
  rw [h, String.fromUTF8?, dif_pos t.isValidUTF8]
  rfl

theorem reads_text {t : String} (h : t.utf8ByteSize < lengthLimit) :
    Reads Read.text (Write.text t) t := by
  have hlen : t.toUTF8.data.toList.length < lengthLimit := by
    rw [Array.length_toList]
    exact h
  have hread : Reads Read.text (Write.text t ++ []) t := by
    refine (reads_bytes hlen).bind ?_
    rw [fromUTF8?_toUTF8]
    exact Reads.pure t
  rwa [List.append_nil] at hread

/-! ## Data and instructions -/

theorem scalarKind?_scalarTag (k : Scalar.Kind) :
    Read.scalarKind? (Write.scalarTag k) = some k := by
  cases k <;> rfl

theorem reads_dataItem {item : DataItem} (h : item.lengthField < lengthLimit) :
    Reads Read.dataItem (Write.dataItem item) item := by
  cases item with
  | scalar s =>
    refine (reads_byte (Write.scalarTag s.kind)).bind ?_
    rw [scalarKind?_scalarTag]
    have hread := (reads_take s.length_bytes).bind_pure
      (f := fun bs => DataItem.scalar (Scalar.ofBytes s.kind bs))
    rw [Scalar.ofBytes_bytes] at hread
    exact hread
  | bytes bs => exact (reads_byte 11).bind (reads_bytes h).bind_pure
  | text t => exact (reads_byte 12).bind (reads_text h).bind_pure

theorem reads_instruction {i : Instruction} (h : i.lengthField < lengthLimit) :
    Reads Read.instruction (Write.instruction i) i := by
  cases i with
  | dataAddress n | paramsAddress n | localsAddress n | globalsAddress n | offset n | copy n
  | call n | jump n | branchIf n => exact (reads_byte _).bind (reads_word n).bind_pure
  | resultAddress | reference | dereference | opBegin | param | target | ret =>
    exact (reads_byte _).bind (Reads.pure _)
  | tuple sizes =>
    exact (reads_byte _).bind (reads_list h fun n _ => reads_word n).bind_pure
  | opEnd op result =>
    exact (reads_byte _).bind ((reads_word op).bind (reads_word result).bind_pure)

/-! ## Procedures and programs -/

theorem reads_result (size : Option UInt32) : Reads Read.result (Write.result size) size := by
  cases size with
  | none => exact (reads_flag false).bind (reads_word 0).bind_pure
  | some size => exact (reads_flag true).bind (reads_word size).bind_pure

theorem reads_label {l : String × UInt32} (h : l.1.utf8ByteSize < lengthLimit) :
    Reads Read.label (Write.label l) l :=
  (reads_text h).bind (reads_word l.2).bind_pure

theorem reads_procedure {p : Procedure} (h : p.Sized) :
    Reads Read.procedure (Write.procedure p) p := by
  have hcode : ∀ i ∈ p.code.toList, Reads Read.instruction (Write.instruction i) i :=
    fun i hi => reads_instruction (h.instructions i (Array.mem_toList_iff.mp hi))
  simp only [Write.procedure, List.append_assoc]
  refine (reads_text h.name).bind ?_
  refine (reads_flag p.exported).bind ?_
  refine (reads_list h.params fun n _ => reads_word n).bind ?_
  refine (reads_result p.result).bind ?_
  refine (reads_list h.locals fun n _ => reads_word n).bind ?_
  refine (reads_list h.labels fun l hl => reads_label (h.labelNames l hl)).bind ?_
  exact (reads_list (by simpa using h.code) hcode).bind_pure

theorem reads_program {p : Program} (h : p.Sized) : Reads Read.program p.encode p := by
  have hops : ∀ name ∈ p.ops.toList, Reads Read.text (Write.text name) name :=
    fun name hname => reads_text (h.opNames name (Array.mem_toList_iff.mp hname))
  have hprocedures : ∀ q ∈ p.procedures.toList, Reads Read.procedure (Write.procedure q) q :=
    fun q hq => reads_procedure (h.procedure q (Array.mem_toList_iff.mp hq))
  have hmagic : Reads (Read.take 4) magic magic := reads_take rfl
  simp only [encode, List.append_assoc]
  refine hmagic.bind ?_
  refine (reads_word version).bind ?_
  refine (reads_list (by simpa using h.ops) hops).bind ?_
  refine (reads_word p.globalsSize).bind ?_
  refine (reads_list h.data fun item hitem => reads_dataItem (h.dataItems item hitem)).bind ?_
  exact (reads_list (by simpa using h.procedures) hprocedures).bind_pure

/-- **Round trip.** A program is read back from its binary form, whatever its data, its names and
its code are, and whether or not it would pass the check. -/
theorem decode_encode {p : Program} (h : p.Sized) : decode p.encode = .ok p := by
  have hread := reads_program h []
  rw [List.append_nil] at hread
  unfold decode
  rw [hread]
  rfl

/-- A program with data of every form, a result, labels and instructions with lists. -/
def assorted : Program where
  ops := #["öffnen"]
  globalsSize := 8
  data := [.scalar (.f32 0x7fc00001), .scalar (.bool true), .bytes [0, 255], .text "größe"]
  procedures := #[
    { name := "main", exported := true, params := [4, 8], result := some 8, locals := [1],
      labels := [("ende", 2)], code := #[.tuple [4, 8], .opEnd 0 7] },
    { name := "" }]

theorem decode_encode_assorted : assorted.Sized ∧ decode assorted.encode = .ok assorted := by
  have hsized : assorted.Sized := by
    refine ⟨by decide, by decide, by decide, by decide, by decide, ?_⟩
    intro procedure hprocedure
    obtain rfl | rfl : procedure = assorted.procedures[0] ∨
        procedure = assorted.procedures[1] := by simpa [assorted] using hprocedure
    · exact ⟨by decide, by decide, by decide, by decide, by decide, by decide, by decide⟩
    · exact ⟨by decide, by decide, by decide, by decide, by decide, by decide, by decide⟩
  exact ⟨hsized, decode_encode hsized⟩

end Program

end Hostcall
