import Hostcall.Proofs.Program.Delimited

/-!
# Writing what has been read

The reader of programs is laxer than the writer at three places: a flag may be any byte but zero
instead of one, which concerns flags of procedures and truth values in the data, and the size of an
absent result may be anything. Nothing else of an accepted input is forgotten.

* `LooseField` is such a place of an input with what stands there, and `looseFields` lists those
  of a whole input in their order. They are found by readers that read as those of the format do
  and note what the latter forget: `map_fst_program`.
* `Takes r P` says of a reader that whatever it gives satisfies `P` together with the bytes that
  were taken. The readers of the format are treated in its order, as for the way back.
* `encode_of_decode`: writing what has been read gives as many bytes, which are read as the same
  program again, and they are the bytes that were read if and only if all loose fields are as the
  writer writes them.
-/

namespace Hostcall.Program

variable {α β : Type}

/-! ## Loose fields -/

/-- A field of which a reader takes more forms than one. -/
inductive LooseField where
  /-- A flag. -/
  | flag (byte : UInt8)
  /-- The size of an absent result. -/
  | absentSize (size : UInt32)
  deriving DecidableEq, Repr

/-- The field is as the writer writes it. -/
def LooseField.Canonical : LooseField → Prop
  | .flag byte => byte = 0 ∨ byte = 1
  | .absentSize size => size = 0

instance : DecidablePred LooseField.Canonical := fun field =>
  match field with
  | .flag byte => inferInstanceAs (Decidable (byte = 0 ∨ byte = 1))
  | .absentSize size => inferInstanceAs (Decidable (size = 0))

namespace Noted

def flag : Reader (Bool × List LooseField) := do
  let byte ← Read.byte
  return (byte != 0, [.flag byte])

def scalar (kind : Scalar.Kind) : Reader (Scalar × List LooseField) := do
  let bs ← Read.take kind.size
  return (Scalar.ofBytes kind bs, if kind = .bool then bs.map .flag else [])

def dataItem : Reader (DataItem × List LooseField) := do
  let tag ← Read.byte
  match Read.scalarKind? tag with
  | some kind => do
    let (s, fields) ← scalar kind
    return (.scalar s, fields)
  | none =>
    if tag = 11 then return (.bytes (← Read.bytes), [])
    else if tag = 12 then return (.text (← Read.text), [])
    else throw (.invalidDataTag tag)

def result : Reader (Option UInt32 × List LooseField) := do
  let (present, fields) ← flag
  let size ← Read.word
  return if present then (some size, fields) else (none, fields ++ [.absentSize size])

def procedure : Reader (Procedure × List LooseField) := do
  let name ← Read.text
  let (exported, exportFields) ← flag
  let params ← Read.list Read.word
  let (result, resultFields) ← result
  let locals ← Read.list Read.word
  let labels ← Read.list Read.label
  let code ← Read.list Read.instruction
  return ({ name, exported, params, result, locals, labels, code := code.toArray },
    exportFields ++ resultFields)

def program : Reader (Program × List LooseField) := do
  if (← Read.take 4) != magic then throw .invalidMagic
  let v ← Read.word
  if v != version then throw (.unsupportedVersion v)
  let ops ← Read.list Read.text
  let globalsSize ← Read.word
  let data ← Read.list dataItem
  let procedures ← Read.list procedure
  return (
    { ops := ops.toArray, globalsSize, data := data.map (·.1)
      procedures := (procedures.map (·.1)).toArray },
    data.flatMap (·.2) ++ procedures.flatMap (·.2))

end Noted

/-- The loose fields that are read in an input, in their order. -/
def looseFields (input : List UInt8) : List LooseField :=
  match Noted.program input with
  | .ok ((_, fields), _) => fields
  | .error _ => []

/-! ## Taking notes does not change what is read -/

theorem map_fst_flag : Prod.fst <$> Noted.flag = Read.flag := by
  simp [Noted.flag, Read.flag]

theorem map_fst_dataItem : Prod.fst <$> Noted.dataItem = Read.dataItem := by
  simp only [Noted.dataItem, Noted.scalar, Read.dataItem, map_bind]
  congr
  funext tag
  cases Read.scalarKind? tag with
  | some kind => simp
  | none =>
    by_cases hbytes : tag = 11
    · simp [hbytes]
    · by_cases htext : tag = 12
      · simp [htext]
      · simp only [hbytes, htext, if_false]
        rfl

theorem map_fst_result : Prod.fst <$> Noted.result = Read.result := by
  simp only [Noted.result, Read.result, ← map_fst_flag, map_bind, bind_map_left]
  congr
  funext r
  obtain ⟨present, fields⟩ := r
  cases present with
  | false => simp
  | true => simp

theorem map_fst_procedure : Prod.fst <$> Noted.procedure = Read.procedure := by
  simp only [Noted.procedure, Read.procedure, ← map_fst_flag, ← map_fst_result, map_bind,
    bind_map_left, map_pure]

theorem map_exactly (f : α → β) (element : Reader α) (n : Nat) :
    List.map f <$> Read.exactly element n = Read.exactly (f <$> element) n := by
  induction n with
  | zero => simp [Read.exactly]
  | succ n ih => simp [Read.exactly, ← ih]

theorem map_list (f : α → β) (element : Reader α) :
    List.map f <$> Read.list element = Read.list (f <$> element) := by
  simp only [Read.list, map_bind, map_exactly]

/-- Apart from the notes, the noted program is read as the format says. -/
theorem map_fst_program : Prod.fst <$> Noted.program = Read.program := by
  simp only [Noted.program, Read.program, ← map_fst_dataItem, ← map_fst_procedure, ← map_list,
    map_bind, bind_map_left]
  congr
  funext front
  cases front != magic with
  | true => rfl
  | false =>
    simp only [Bool.false_eq_true, if_false, map_bind]
    congr
    funext v
    cases v != version with
    | true => rfl
    | false => simp

/-! ## What a reader takes -/

/-- Whatever the reader gives satisfies `P` together with the bytes that were taken. -/
def Takes (r : Reader α) (P : α → List UInt8 → Prop) : Prop :=
  ∀ input x rest, r input = .ok (x, rest) → ∃ bs, input = bs ++ rest ∧ P x bs

namespace Takes

variable {r : Reader α} {P : α → List UInt8 → Prop} {Q : β → List UInt8 → Prop}

theorem pure {x : α} (h : P x []) : Takes (Pure.pure x) P := by
  intro input y rest heq
  cases heq
  exact ⟨[], rfl, h⟩

theorem throw (e : DecodeError) : Takes (MonadExcept.throw e) P := by
  intro input x rest h
  cases h

theorem bind {f : α → Reader β} (hr : Takes r P)
    (hf : ∀ x bs, P x bs → Takes (f x) fun y cs => Q y (bs ++ cs)) : Takes (r >>= f) Q := by
  intro input y rest h
  obtain ⟨x, middle, hx, hy⟩ := bind_run_eq_ok_iff.mp h
  obtain ⟨bs, rfl, hbs⟩ := hr input x middle hx
  obtain ⟨cs, rfl, hcs⟩ := hf x bs hbs middle y rest hy
  exact ⟨bs ++ cs, (List.append_assoc ..).symm, hcs⟩

theorem bind_pure {f : α → β} (hr : Takes r P) (hf : ∀ x bs, P x bs → Q (f x) bs) :
    Takes (r >>= fun x => Pure.pure (f x)) Q := by
  refine hr.bind fun x bs hbs => pure ?_
  rw [List.append_nil]
  exact hf x bs hbs

/-- A reader that first refuses what it has found out. -/
theorem refuse {c : Bool} {e : DecodeError} {f : Unit → Reader α}
    (hf : c = false → Takes (f ()) P) :
    Takes (if c then MonadExcept.throw e >>= f else f ()) P := by
  cases c with
  | false => exact hf rfl
  | true =>
    intro input x rest h
    cases h

end Takes

/-! ## Bytes, words and texts -/

theorem takes_take (n : Nat) :
    Takes (Read.take n) fun front bs => bs = front ∧ front.length = n := by
  intro input front rest h
  obtain ⟨rfl, hlen⟩ := take_eq_ok_iff.mp h
  exact ⟨front, rfl, rfl, hlen⟩

theorem takes_byte : Takes Read.byte fun b bs => bs = [b] := by
  intro input b rest h
  cases input with
  | nil => cases h
  | cons c input =>
    cases h
    exact ⟨[b], rfl, rfl⟩

theorem takes_word : Takes Read.word fun v bs => bs = Write.word v := by
  refine (takes_take 4).bind_pure ?_
  rintro _ front ⟨rfl, hlen⟩
  have hlt : Bytes.toNat front < UInt32.size := by
    have h := Bytes.toNat_lt front
    rwa [hlen] at h
  rw [Write.word, UInt32.toNat_ofNat_of_lt' hlt, ← hlen, Bytes.ofNat_toNat]

theorem takes_bytes :
    Takes Read.bytes fun bs taken => taken = Write.bytes bs ∧ bs.length < lengthLimit := by
  refine takes_word.bind ?_
  rintro count _ rfl input bs rest h
  obtain ⟨taken, rfl, rfl, hlen⟩ := takes_take _ input bs rest h
  refine ⟨taken, rfl, ?_, ?_⟩
  · rw [Write.bytes, hlen, UInt32.ofNat_toNat]
  · rw [hlen]
    exact count.toNat_lt

theorem toUTF8_of_fromUTF8? {bs : ByteArray} {t : String} (h : String.fromUTF8? bs = some t) :
    t.toUTF8 = bs := by
  unfold String.fromUTF8? at h
  split at h
  · cases h
    rfl
  · cases h

theorem takes_text :
    Takes Read.text fun t bs => bs = Write.text t ∧ t.utf8ByteSize < lengthLimit := by
  refine takes_bytes.bind ?_
  rintro bs _ ⟨rfl, hlen⟩
  split
  · rename_i t ht
    have hbytes : t.toUTF8.data.toList = bs := by rw [toUTF8_of_fromUTF8? ht]
    refine .pure ⟨?_, ?_⟩
    · rw [List.append_nil, Write.text, hbytes]
    · rw [← hbytes, Array.length_toList] at hlen
      exact hlen
  · exact .throw _

/-! ## Lists -/

section

variable {element : Reader α} {P : α → List UInt8 → Prop} {Q : List α → List UInt8 → Prop}

theorem takes_exactly (h : Takes element P) (hnil : Q [] [])
    (hcons : ∀ x xs bs cs, P x bs → Q xs cs → Q (x :: xs) (bs ++ cs)) (n : Nat) :
    Takes (Read.exactly element n) fun xs bs => xs.length = n ∧ Q xs bs := by
  induction n with
  | zero => exact .pure ⟨rfl, hnil⟩
  | succ n ih =>
    refine h.bind fun x bs hx => ih.bind_pure ?_
    rintro xs cs ⟨hlen, hxs⟩
    exact ⟨congrArg (· + 1) hlen, hcons x xs bs cs hx hxs⟩

theorem takes_list (h : Takes element P) (hnil : Q [] [])
    (hcons : ∀ x xs bs cs, P x bs → Q xs cs → Q (x :: xs) (bs ++ cs)) :
    Takes (Read.list element) fun xs bs => xs.length < lengthLimit ∧
      ∃ cs, bs = Write.word (UInt32.ofNat xs.length) ++ cs ∧ Q xs cs := by
  refine takes_word.bind ?_
  rintro count _ rfl input xs rest hread
  obtain ⟨cs, rfl, hlen, hcs⟩ := takes_exactly h hnil hcons _ input xs rest hread
  refine ⟨cs, rfl, ?_, cs, ?_, hcs⟩
  · rw [hlen]
    exact count.toNat_lt
  · rw [hlen, UInt32.ofNat_toNat]

/-- A list of elements of which nothing is forgotten. -/
theorem takes_list_exact {write : α → List UInt8} {S : α → Prop}
    (h : Takes element fun x bs => bs = write x ∧ S x) :
    Takes (Read.list element) fun xs bs =>
      bs = Write.list write xs ∧ xs.length < lengthLimit ∧ ∀ x ∈ xs, S x := by
  have hlist := takes_list (Q := fun xs bs => bs = xs.flatMap write ∧ ∀ x ∈ xs, S x) h
    ⟨rfl, nofun⟩ ?_
  · intro input xs rest hread
    obtain ⟨bs, rfl, hlen, cs, rfl, rfl, hxs⟩ := hlist input xs rest hread
    exact ⟨_, rfl, rfl, hlen, hxs⟩
  · rintro x xs _ _ ⟨rfl, hx⟩ ⟨rfl, hxs⟩
    exact ⟨rfl, List.forall_mem_cons.mpr ⟨hx, hxs⟩⟩

end

/-! ## Parts of which nothing is forgotten -/

theorem lengthLimit_pos : 0 < lengthLimit := by decide

theorem takes_words :
    Takes (Read.list Read.word) fun sizes bs =>
      bs = Write.list Write.word sizes ∧ sizes.length < lengthLimit := by
  have hword : Takes Read.word fun v bs => bs = Write.word v ∧ True :=
    fun input v rest h => by simpa using takes_word input v rest h
  intro input sizes rest h
  obtain ⟨bs, hinput, hbs, hlen, -⟩ := takes_list_exact hword input sizes rest h
  exact ⟨bs, hinput, hbs, hlen⟩

theorem takes_label :
    Takes Read.label fun l bs => bs = Write.label l ∧ l.1.utf8ByteSize < lengthLimit := by
  refine takes_text.bind ?_
  rintro name _ ⟨rfl, hname⟩
  refine takes_word.bind_pure ?_
  rintro position _ rfl
  exact ⟨rfl, hname⟩

theorem takes_instruction :
    Takes Read.instruction fun i bs =>
      bs = Write.instruction i ∧ i.lengthField < lengthLimit := by
  refine takes_byte.bind ?_
  rintro opcode _ rfl
  -- the tag that was found is the opcode of the instruction that is given
  have hopcode {i : Instruction} {bs : List UInt8} (hop : opcode.toNat = i.opcode.toNat)
      (hbs : bs = Write.operands i) : [opcode] ++ bs = Write.instruction i := by
    rw [UInt8.toNat_inj.mp hop, hbs]
    rfl
  have hword {f : UInt32 → Instruction} (hop : ∀ n, opcode.toNat = (f n).opcode.toNat)
      (hf : ∀ n, Write.word n = Write.operands (f n)) (hlen : ∀ n, (f n).lengthField = 0) :
      Takes (Read.word >>= fun n => pure (f n)) fun i bs =>
        [opcode] ++ bs = Write.instruction i ∧ i.lengthField < lengthLimit := by
    refine takes_word.bind_pure ?_
    rintro n _ rfl
    refine ⟨hopcode (hop n) (hf n), ?_⟩
    rw [hlen n]
    exact lengthLimit_pos
  split
  case h_1 hop | h_2 hop | h_4 hop | h_5 hop | h_6 hop | h_10 hop | h_15 hop | h_16 hop
      | h_17 hop => exact hword (fun _ => hop) (fun _ => rfl) (fun _ => rfl)
  case h_3 hop | h_7 hop | h_8 hop | h_11 hop | h_12 hop | h_13 hop | h_18 hop =>
    exact .pure ⟨hopcode hop rfl, lengthLimit_pos⟩
  case h_9 hop =>
    refine takes_words.bind_pure ?_
    rintro sizes _ ⟨rfl, hlen⟩
    exact ⟨hopcode hop rfl, hlen⟩
  case h_14 hop =>
    refine takes_word.bind ?_
    rintro op _ rfl
    refine takes_word.bind_pure ?_
    rintro result _ rfl
    exact ⟨hopcode hop rfl, lengthLimit_pos⟩
  case h_19 => exact .throw _

/-! ## Parts with loose fields -/

/-- The bytes `bs` stand where the writer would write `written`, and `fields` are the loose fields
among them: they have the same length, and they are the same if the fields are canonical. -/
structure Spells (fields : List LooseField) (written bs : List UInt8) : Prop where
  length_eq : written.length = bs.length
  eq_iff : written = bs ↔ ∀ field ∈ fields, field.Canonical

namespace Spells

variable {fields more : List LooseField} {written bs written' bs' : List UInt8}

theorem exact (bs : List UInt8) : Spells [] bs bs := ⟨rfl, by simp⟩

theorem append (h : Spells fields written bs) (h' : Spells more written' bs') :
    Spells (fields ++ more) (written ++ written') (bs ++ bs') := by
  refine ⟨?_, ?_⟩
  · rw [List.length_append, List.length_append, h.length_eq, h'.length_eq]
  · rw [List.forall_mem_append, ← h.eq_iff, ← h'.eq_iff]
    constructor
    · intro heq
      exact List.append_inj heq h.length_eq
    · rintro ⟨rfl, rfl⟩
      rfl

theorem prepend (front : List UInt8) (h : Spells fields written bs) :
    Spells fields (front ++ written) (front ++ bs) :=
  (Spells.exact front).append h

end Spells

theorem spells_flag (byte : UInt8) : Spells [.flag byte] (Write.flag (byte != 0)) [byte] := by
  refine ⟨rfl, ?_⟩
  simp only [List.forall_mem_singleton, LooseField.Canonical]
  by_cases hzero : byte = 0
  · simp [Write.flag, hzero]
  · have hset : Write.flag (byte != 0) = [1] := by simp [Write.flag, hzero]
    rw [hset, List.singleton_inj, or_iff_right hzero]
    exact eq_comm

theorem spells_absentSize (size : UInt32) :
    Spells [.absentSize size] (Write.word 0) (Write.word size) := by
  refine ⟨by simp [Write.word], ?_⟩
  simp only [List.forall_mem_singleton, LooseField.Canonical]
  constructor
  · intro h
    have hread := reads_word size []
    rw [← h, reads_word 0 []] at hread
    cases hread
    rfl
  · rintro rfl
    rfl

theorem takes_flag : Takes Noted.flag fun r bs => Spells r.2 (Write.flag r.1) bs := by
  refine takes_byte.bind_pure ?_
  rintro byte _ rfl
  exact spells_flag byte

theorem bytes_ofBytes_bool (byte : UInt8) :
    (Scalar.ofBytes .bool [byte]).bytes = Write.flag (byte != 0) := by
  by_cases hzero : byte = 0
  · subst hzero
    rfl
  · have hpos : byte.toNat ≠ 0 := fun h => hzero (UInt8.toNat_inj.mp h)
    have hbits : (Bytes.toNat [byte] != 0) = true := by simpa [Bytes.toNat] using hpos
    have hset : (byte != 0) = true := by simpa using hzero
    rw [Scalar.ofBytes, Scalar.ofBits, hbits, hset]
    rfl

theorem takes_scalar (kind : Scalar.Kind) :
    Takes (Noted.scalar kind) fun r bs => r.1.kind = kind ∧ Spells r.2 r.1.bytes bs := by
  refine (takes_take kind.size).bind_pure ?_
  rintro _ bs ⟨rfl, hlen⟩
  refine ⟨Scalar.kind_ofBits kind _, ?_⟩
  by_cases hbool : kind = .bool
  · subst hbool
    obtain ⟨byte, rfl⟩ := List.length_eq_one_iff.mp hlen
    rw [bytes_ofBytes_bool]
    exact spells_flag byte
  · rw [if_neg hbool, Scalar.bytes_ofBytes hbool hlen]
    exact .exact bs

theorem scalarTag_of_scalarKind? {tag : UInt8} {kind : Scalar.Kind}
    (h : Read.scalarKind? tag = some kind) : Write.scalarTag kind = tag := by
  have htags : ∀ i : Fin Scalar.Kind.all.length,
      (Write.scalarTag Scalar.Kind.all[i]).toNat = i := by decide
  obtain ⟨hlt, hkind⟩ := List.getElem?_eq_some_iff.mp h
  rw [← hkind]
  exact UInt8.toNat_inj.mp (htags ⟨tag.toNat, hlt⟩)

theorem takes_dataItem :
    Takes Noted.dataItem fun r bs =>
      r.1.lengthField < lengthLimit ∧ Spells r.2 (Write.dataItem r.1) bs := by
  refine takes_byte.bind ?_
  rintro tag _ rfl
  split
  · rename_i kind hkind
    refine (takes_scalar kind).bind_pure ?_
    rintro ⟨s, fields⟩ bs ⟨rfl, hs⟩
    refine ⟨lengthLimit_pos, ?_⟩
    rw [Write.dataItem, scalarTag_of_scalarKind? hkind]
    exact hs.prepend [tag]
  · split
    · rename_i htag
      refine takes_bytes.bind_pure ?_
      rintro bs _ ⟨rfl, hlen⟩
      rw [htag]
      exact ⟨hlen, .exact _⟩
    · split
      · rename_i htag
        refine takes_text.bind_pure ?_
        rintro t _ ⟨rfl, hlen⟩
        rw [htag]
        exact ⟨hlen, .exact _⟩
      · exact .throw _

theorem takes_result : Takes Noted.result fun r bs => Spells r.2 (Write.result r.1) bs := by
  refine takes_flag.bind ?_
  rintro ⟨present, fields⟩ bs hflag
  refine takes_word.bind_pure ?_
  rintro size _ rfl
  cases present with
  | true =>
    have h := hflag.append (.exact (Write.word size))
    rwa [List.append_nil] at h
  | false => exact hflag.append (spells_absentSize size)

/-- A list of elements with loose fields. -/
theorem takes_list_noted {element : Reader (α × List LooseField)} {write : α → List UInt8}
    {S : α → Prop} (h : Takes element fun r bs => S r.1 ∧ Spells r.2 (write r.1) bs) :
    Takes (Read.list element) fun rs bs => rs.length < lengthLimit ∧ (∀ r ∈ rs, S r.1) ∧
      Spells (rs.flatMap (·.2)) (Write.list write (rs.map (·.1))) bs := by
  have hlist := takes_list (Q := fun rs bs => (∀ r ∈ rs, S r.1) ∧
    Spells (rs.flatMap (·.2)) ((rs.map (·.1)).flatMap write) bs) h ⟨nofun, .exact []⟩ ?_
  · intro input rs rest hread
    obtain ⟨bs, rfl, hlen, cs, rfl, hrs, hcs⟩ := hlist input rs rest hread
    refine ⟨_, rfl, hlen, hrs, ?_⟩
    rw [Write.list, List.length_map]
    exact hcs.prepend _
  · rintro r rs bs cs ⟨hr, hbs⟩ ⟨hrs, hcs⟩
    exact ⟨List.forall_mem_cons.mpr ⟨hr, hrs⟩, hbs.append hcs⟩

theorem takes_procedure :
    Takes Noted.procedure fun r bs => r.1.Sized ∧ Spells r.2 (Write.procedure r.1) bs := by
  refine takes_text.bind ?_
  rintro name _ ⟨rfl, hname⟩
  refine takes_flag.bind ?_
  rintro ⟨exported, exportFields⟩ flagBytes hflag
  refine takes_words.bind ?_
  rintro params _ ⟨rfl, hparams⟩
  refine takes_result.bind ?_
  rintro ⟨result, resultFields⟩ resultBytes hresult
  refine takes_words.bind ?_
  rintro locals _ ⟨rfl, hlocals⟩
  refine (takes_list_exact takes_label).bind ?_
  rintro labels _ ⟨rfl, hlabels, hlabelNames⟩
  refine (takes_list_exact takes_instruction).bind_pure ?_
  rintro code _ ⟨rfl, hcode, hinstructions⟩
  refine ⟨⟨hname, hparams, hlocals, hlabels, hlabelNames, by simpa using hcode, ?_⟩, ?_⟩
  · simpa using hinstructions
  · simp only [Write.procedure, List.append_assoc]
    refine .prepend _ (hflag.append (.prepend _ ?_))
    have h := hresult.append (.exact (Write.list Write.word locals ++
      (Write.list Write.label labels ++ Write.list Write.instruction code)))
    rwa [List.append_nil] at h

theorem takes_program :
    Takes Noted.program fun r bs => r.1.Sized ∧ Spells r.2 r.1.encode bs := by
  refine (takes_take 4).bind ?_
  rintro _ front ⟨rfl, -⟩
  refine .refuse fun hmagic => ?_
  obtain rfl : front = magic := by simpa using hmagic
  refine takes_word.bind ?_
  rintro v _ rfl
  refine .refuse fun hversion => ?_
  obtain rfl : v = version := by simpa using hversion
  refine (takes_list_exact takes_text).bind ?_
  rintro ops _ ⟨rfl, hops, hopNames⟩
  refine takes_word.bind ?_
  rintro globalsSize _ rfl
  refine (takes_list_noted (S := fun item => item.lengthField < lengthLimit)
    takes_dataItem).bind ?_
  rintro data dataBytes ⟨hdata, hitems, hdataBytes⟩
  refine (takes_list_noted takes_procedure).bind_pure ?_
  rintro procedures procedureBytes ⟨hprocedures, hsized, hprocedureBytes⟩
  refine ⟨⟨by simpa using hops, by simpa using hopNames, by simpa using hdata, ?_,
    by simpa using hprocedures, ?_⟩, ?_⟩
  · intro item hitem
    obtain ⟨r, hr, rfl⟩ := List.mem_map.mp hitem
    exact hitems r hr
  · intro procedure hprocedure
    obtain ⟨r, hr, rfl⟩ := List.mem_map.mp (List.mem_toArray.mp hprocedure)
    exact hsized r hr
  · simp only [encode, List.append_assoc]
    exact .prepend _ (.prepend _ (.prepend _ (.prepend _ (hdataBytes.append hprocedureBytes))))

/-! ## Whole inputs -/

theorem noted_of_decode {input : List UInt8} {p : Program} (h : decode input = .ok p) :
    Noted.program input = .ok ((p, looseFields input), []) := by
  have hread := decode_eq_ok_iff.mp h
  rw [← map_fst_program] at hread
  change (Noted.program input >>= fun r => pure (r.1.1, r.2)) = .ok (p, []) at hread
  obtain ⟨⟨⟨q, fields⟩, rest⟩, hnoted, hq⟩ := Attempt.bind_eq_ok_iff.mp hread
  cases hq
  rw [hnoted, looseFields, hnoted]

/-- **The way back.** What has been read is written with as many bytes and read again as the same
program, and it is written as it was read exactly if all flags that were read are zero or one and
all sizes of absent results are zero. -/
theorem encode_of_decode {input : List UInt8} {p : Program} (h : decode input = .ok p) :
    p.encode.length = input.length ∧ decode p.encode = .ok p ∧
      (p.encode = input ↔ ∀ field ∈ looseFields input, field.Canonical) := by
  obtain ⟨bs, hinput, hsized, hspells⟩ := takes_program _ _ _ (noted_of_decode h)
  rw [List.append_nil] at hinput
  subst hinput
  refine ⟨hspells.length_eq, decode_eq_ok_iff.mpr ?_, hspells.eq_iff⟩
  have hread := reads_program hsized []
  rwa [List.append_nil] at hread

/-- A program with a truth value in its data and a procedure without a result. -/
def sloppy : Program where
  data := [.scalar (.bool true)]
  procedures := #[{ name := "main", exported := true, code := #[.ret] }]

/-- The same program as another writer may have spelt it. -/
def sloppyInput : List UInt8 :=
  magic ++ Write.word version ++ Write.word 0 ++ Write.word 0 ++
    Write.word 1 ++ [10, 7] ++
    Write.word 1 ++ Write.text "main" ++ [255] ++ Write.word 0 ++ [0] ++ Write.word 9 ++
    Write.word 0 ++ Write.word 0 ++ Write.list Write.instruction [.ret]

theorem encode_of_decode_sloppy :
    decode sloppyInput = .ok sloppy ∧
      looseFields sloppyInput = [.flag 7, .flag 255, .flag 0, .absentSize 9] ∧
      sloppy.encode.length = sloppyInput.length ∧ decode sloppy.encode = .ok sloppy ∧
      sloppy.encode ≠ sloppyInput := by
  have haccepted : decode sloppyInput = .ok sloppy := rfl
  have hfields : looseFields sloppyInput = [.flag 7, .flag 255, .flag 0, .absentSize 9] := rfl
  obtain ⟨hlen, hagain, hsame⟩ := encode_of_decode haccepted
  refine ⟨haccepted, hfields, hlen, hagain, fun heq => ?_⟩
  have hcanonical := hsame.mp heq
  rw [hfields] at hcanonical
  exact absurd (hcanonical (.flag 7) List.mem_cons_self) (by decide)

end Hostcall.Program
