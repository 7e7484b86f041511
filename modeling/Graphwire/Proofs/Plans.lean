import Graphwire.Proofs.Lockstep

/-!
# Runs of fixed-width fields

The plan of a struct treats a run of fixed-width fields as one block. Writing the block comes to the
same as writing the fields one after the other, and so does reading it, except that a block that is
cut short is refused as a whole.
-/

namespace Graphwire

set_option autoImplicit false

/-! ## Types of fixed width -/

/-- The width in bytes of built-in types whose values all have the same width. -/
inductive Builtin.Fixed : Builtin → Nat → Prop where
  | bool : Fixed .bool 1
  | int (kind : IntKind) : Fixed (.int kind .fixed) kind.bytes
  | float32 : Fixed .float32 4
  | float64 : Fixed .float64 8

theorem primitiveSize_of_fixed {t : TypeId} {b : Builtin} {w : Nat} (ht : t.builtin? = some b)
    (hb : b.Fixed w) : t.primitiveSize = w := by
  obtain ⟨code⟩ := t
  unfold TypeId.builtin? at ht
  dsimp only at ht
  split at ht <;> cases ht <;> cases hb <;> rfl

/-- A field whose bytes are neither optional nor of varying length. -/
structure Field.Fixed (f : Field) (w : Nat) : Prop where
  shape : f.shape = .scalar f.type
  unmarked : f.refMode = .none
  untyped : f.dynamic = false
  width : ∃ b, f.type.builtin? = some b ∧ b.Fixed w

theorem Field.fixed_of_fixedWidth? {f : Field} {w : Nat}
    (scalarType : ∀ t, f.shape = .scalar t → f.type = t) (h : f.fixedWidth? = some w) :
    f.Fixed w := by
  unfold Field.fixedWidth? at h
  split at h
  · rename_i t shape
    have type := scalarType t shape
    have close {b : Builtin} {v : Nat} (hb : b.Fixed v) (ht : t.builtin? = some b)
        (h : (if f.refMode = .none && !f.dynamic then some t.primitiveSize else none) = some w) :
        f.Fixed w := by
      split at h
      · rename_i plain
        obtain ⟨unmarked, untyped⟩ := Bool.and_eq_true_iff.1 plain
        cases h
        rw [primitiveSize_of_fixed ht hb]
        exact ⟨by rw [shape, type], of_decide_eq_true unmarked, by simpa using untyped,
          b, by rw [type]; exact ht, hb⟩
      · cases h
    split at h
    · exact close .bool ‹_› h
    · exact close (.int _) ‹_› h
    · exact close .float32 ‹_› h
    · exact close .float64 ‹_› h
    · cases h
  · cases h

/-- Fields of fixed width, and the width of all of them. -/
inductive FixedRun : List Field → Nat → Prop where
  | nil : FixedRun [] 0
  | cons {f : Field} {w : Nat} {fields : List Field} {width : Nat} (hf : f.Fixed w)
    (run : FixedRun fields width) : FixedRun (f :: fields) (w + width)

theorem FixedRun.concat {fields : List Field} {width : Nat} (run : FixedRun fields width)
    {f : Field} {w : Nat} (hf : f.Fixed w) : FixedRun (fields ++ [f]) (width + w) := by
  induction run with
  | nil => simpa using FixedRun.cons hf .nil
  | cons hf' _ ih => simpa [Nat.add_assoc] using FixedRun.cons hf' ih

theorem FixedRun.fixed {fields : List Field} {width : Nat} (run : FixedRun fields width) :
    ∀ f ∈ fields, ∃ w, f.Fixed w := by
  induction run with
  | nil => exact fun _ h => absurd h List.not_mem_nil
  | cons hf _ ih => exact List.forall_mem_cons.2 ⟨⟨_, hf⟩, ih⟩

/-! ## Plans -/

/-- The fields at some positions. -/
def StructType.fieldsAt (s : StructType) (positions : List Nat) : List Field :=
  positions.filterMap fun i => s.fields[i]?

/-- Whether steps go through the given fields of a struct. -/
inductive StructType.Covers (s : StructType) : List PlanStep → List Field → Prop where
  | nil : Covers s [] []
  | run {positions : List Nat} {width : Nat} {steps : List PlanStep} {fields : List Field}
    (fixed : FixedRun (s.fieldsAt positions) width) (rest : Covers s steps fields) :
    Covers s (.run positions width :: steps) (s.fieldsAt positions ++ fields)
  | field {position : Nat} {f : Field} {steps : List PlanStep} {fields : List Field}
    (found : s.fields[position]? = some f) (rest : Covers s steps fields) :
    Covers s (.field position :: steps) (f :: fields)

/-- What strategies rely on in a struct: its plan is the one of its fields, and the fields have the
types of their shapes. -/
structure StructType.Planned (s : StructType) : Prop where
  plan : s.plan = fieldPlan s.fields
  scalarType : ∀ f ∈ s.fields, ∀ t, f.shape = .scalar t → f.type = t

theorem StructType.Covers.ofRun {s : StructType} {pending : List Nat} {width : Nat}
    {steps : List PlanStep} {fields : List Field} (fixed : FixedRun (s.fieldsAt pending) width)
    (rest : s.Covers steps fields) :
    s.Covers (PlanStep.ofRun pending width ++ steps) (s.fieldsAt pending ++ fields) := by
  unfold PlanStep.ofRun
  split
  · rename_i h
    simpa [h, fieldsAt] using rest
  · exact .run fixed rest

theorem StructType.Planned.covers_planFrom {s : StructType} (planned : s.Planned)
    (rest : List Field) : ∀ (position : Nat) (pending : List Nat) (width : Nat),
      s.fields.drop position = rest → FixedRun (s.fieldsAt pending) width →
      s.Covers (planFrom position pending width rest) (s.fieldsAt pending ++ rest) := by
  induction rest with
  | nil =>
    intro position pending width _ fixed
    simpa [planFrom] using StructType.Covers.ofRun fixed .nil
  | cons f rest ih =>
    intro position pending width here fixed
    have found : s.fields[position]? = some f := by
      rw [← Nat.add_zero position, ← List.getElem?_drop, here]; rfl
    have next : s.fields.drop (position + 1) = rest := by rw [← List.tail_drop, here]; rfl
    have scalarType := planned.scalarType f (List.mem_of_getElem? found)
    have single : s.fieldsAt [position] = [f] := by simp [fieldsAt, found]
    unfold planFrom
    split
    · rename_i w hw
      have longer : s.fieldsAt (pending ++ [position]) = s.fieldsAt pending ++ [f] := by
        rw [← single]
        exact List.filterMap_append
      have run := fixed.concat (Field.fixed_of_fixedWidth? scalarType hw)
      have steps := ih (position + 1) (pending ++ [position]) (width + w) next (longer ▸ run)
      simpa [longer] using steps
    · exact .ofRun fixed (.field found (ih (position + 1) [] 0 next .nil))

/-- The plan of a struct goes through its fields in order. -/
theorem StructType.Planned.covers {s : StructType} (planned : s.Planned) :
    s.Covers s.plan s.fields :=
  planned.plan ▸ planned.covers_planFrom s.fields 0 [] 0 rfl .nil

/-! ## Little-endian bytes -/

@[simp] theorem Encode.length_littleEndian (width n : Nat) :
    (littleEndian width n).length = width := by
  induction width generalizing n with
  | zero => rfl
  | succ width ih => simp [littleEndian, ih]

@[simp] theorem Encode.length_signed (width : Nat) (n : Int) : (signed width n).length = width :=
  length_littleEndian ..

/-! ## Values of built-in types -/

/-- The values that a built-in type has. -/
inductive Builtin.Holds : Builtin → Value → Prop where
  | bool (b : Bool) : Holds .bool (.bool b)
  | int (n : Integer) (layout : IntLayout) : Holds (.int n.kind layout) (.int n)
  | float32 (bits : UInt32) : Holds .float32 (.float32 bits)
  | float64 (bits : UInt64) : Holds .float64 (.float64 bits)
  | string (s : String) : Holds .string (.string s)
  | binary (bytes : List UInt8) : Holds .binary (.binary bytes)
  | date (day : Calendar.Day) : Holds .date (.date day)
  | timestamp (instant : Calendar.Instant) : Holds .timestamp (.timestamp instant)
  | duration (span : Calendar.Span) : Holds .duration (.duration span)

variable {g : Graph} {t : TypeId} {b : Builtin} {w : Nat}

theorem isContainer_of_builtin? (ht : t.builtin? = some b) : t.isContainer = false := by
  obtain ⟨code⟩ := t
  unfold TypeId.builtin? at ht
  dsimp only at ht
  split at ht <;> first | rfl | cases ht

theorem Value.ofInt?_eq_some_iff {n : Int} {u : Value} :
    Value.ofInt? t n = some u ↔
      ∃ m layout, t.builtin? = some (.int m.kind layout) ∧ m.val = n ∧ u = .int m := by
  simp only [Value.ofInt?, Option.bind_eq_bind, Option.bind_eq_some_iff, Option.pure_def,
    Option.some.injEq]
  constructor
  · rintro ⟨kind, hk, m, hm, rfl⟩
    unfold TypeId.intKind? at hk
    split at hk <;> cases hk
    obtain ⟨rfl, rfl⟩ := Integer.ofInt?_eq_some_iff.1 hm
    exact ⟨m, _, ‹_›, rfl, rfl⟩
  · rintro ⟨m, layout, ht, rfl, rfl⟩
    exact ⟨m.kind, by simp [TypeId.intKind?, ht], m, m.ofInt?_val, rfl⟩

/-- A value that was coerced to a type is a value of it. -/
theorem holds_of_coerce {v u : Value} (ht : t.builtin? = some b) (h : g.coerce t v = .ok u) :
    b.Holds u := by
  have integer {n : Int}
      (h : ((Value.ofInt? t n).map Except.ok).getD (.error (Error.integerOverflow n t)) = .ok u) :
      b.Holds u := by
    cases hn : Value.ofInt? t n with
    | none => rw [hn] at h; cases h
    | some _ =>
      rw [hn] at h
      cases h
      obtain ⟨m, layout, ht', -, rfl⟩ := Value.ofInt?_eq_some_iff.1 hn
      cases ht.symm.trans ht'
      exact .int m layout
  unfold Graph.coerce at h
  rw [ht] at h
  cases b with
  | bool => cases v <;> cases h; exact .bool _
  | float32 => cases v <;> cases h; exact .float32 _
  | float64 => cases v <;> cases h <;> exact .float64 _
  | _ =>
    dsimp only at h
    split at h
    · cases h
    · exact integer h

/-! ## Writing a run -/

theorem scalar_fixed {u : Value} (ht : t.builtin? = some b) (hb : b.Fixed w) (hu : b.Holds u) :
    Encode.scalar t u = .ok u.fixedBytes ∧ u.fixedBytes.length = w := by
  cases hb <;> cases hu <;>
    simp [Encode.scalar, ht, Value.fixedBytes, Encode.integer, Encode.bool]

/-- A value of a fixed-width type is written as the value that it is coerced to. -/
theorem encodeScalar_fixed (ht : t.builtin? = some b) (hb : b.Fixed w) (v : Value) :
    g.encodeScalar t v = Value.fixedBytes <$> g.coerce t v := by
  have direct : g.encodeScalar t v = g.coerce t v >>= Encode.scalar t := by
    unfold Graph.encodeScalar
    rw [ht]
    cases hb <;> rfl
  rw [direct]
  cases hu : g.coerce t v with
  | error e => rfl
  | ok u => exact (scalar_fixed ht hb (holds_of_coerce ht hu)).1

namespace Write

variable {env : Environment} {s : StructType} {r : Record} {payload : WritePayload}

/-- Whether a writer of payloads writes scalars as such. -/
def WritesScalars (g : Graph) (payload : WritePayload) : Prop :=
  ∀ t shape v, t.isContainer = false →
    payload (.builtin t) shape v = (liftM (g.encodeScalar t v) : Write (List UInt8))

theorem field_fixed (scalars : WritesScalars g payload) {f : Field} (hf : f.Fixed w) :
    field env g payload s r f = (liftM (fixedField g r f) : Write (List UInt8)) := by
  obtain ⟨b, ht, hb⟩ := hf.width
  have untyped : f.hasTypeInfo s.isCompatible = false := by
    simp [Field.hasTypeInfo, hf.untyped, hf.shape, Shape.isNamed]
  unfold field fixedField
  cases hv : (r.value f.name).isNull with
  | true => simp only [hf.unmarked, hv]; rfl
  | false =>
    simp only [hf.unmarked, hv, untyped, hf.shape, marked, typed, Environment.declaredType]
    refine (scalars f.type _ _ (isContainer_of_builtin? ht)).trans ?_
    rw [encodeScalar_fixed ht hb]
    rfl

theorem length_fixedField {f : Field} (hf : f.Fixed w) {piece : List UInt8}
    (h : fixedField g r f = .ok piece) : piece.length = w := by
  obtain ⟨b, ht, hb⟩ := hf.width
  unfold fixedField at h
  dsimp only at h
  split at h
  · cases h
  · obtain ⟨u, hu, h⟩ := Graphwire.bind_eq_ok_iff.1 h
    cases h
    exact (scalar_fixed ht hb (holds_of_coerce ht hu)).2

theorem block_of_length {bytes : List UInt8} (h : bytes.length = w) : block w bytes = bytes := by
  simp [block, ← h]

theorem length_pieces {fields : List Field} {width : Nat} (run : FixedRun fields width)
    {pieces : List (List UInt8)} (h : fields.mapM (fixedField g r) = .ok pieces) :
    pieces.flatten.length = width := by
  induction run generalizing pieces with
  | nil => cases h; rfl
  | cons hf _ ih =>
    obtain ⟨piece, others, hp, rest, rfl⟩ := List.forall₂_cons_left_iff.1 (mapM_eq_ok_iff.1 h)
    simp [length_fixedField hf hp, ih (mapM_eq_ok_iff.2 rest)]

theorem concat_fixed (scalars : WritesScalars g payload) {fields : List Field} {width : Nat}
    (run : FixedRun fields width) :
    concat (field env g payload s r) fields =
      (liftM (List.flatten <$> fields.mapM (fixedField g r)) : Write (List UInt8)) := by
  induction run with
  | nil => rfl
  | @cons f _ fields _ hf _ ih =>
    unfold concat
    rw [field_fixed scalars hf, ih, List.mapM_cons]
    cases fixedField g r f with
    | error e => rfl
    | ok piece => cases fields.mapM (fixedField g r) <;> rfl

/-- A run of the plan is its fields, one after the other. -/
theorem step_run (scalars : WritesScalars g payload) {positions : List Nat} {width : Nat}
    (run : FixedRun (s.fieldsAt positions) width) :
    step env g payload s r (.run positions width) =
      concat (field env g payload s r) (s.fieldsAt positions) := by
  rw [concat_fixed scalars run]
  have lengths : ∀ pieces, (s.fieldsAt positions).mapM (fixedField g r) = .ok pieces →
      pieces.flatten.length = width := fun _ => length_pieces run
  have pieces : step env g payload s r (.run positions width) =
      (liftM (do return block width (← (s.fieldsAt positions).mapM (fixedField g r)).flatten :
        Except Error (List UInt8)) : Write (List UInt8)) := rfl
  rw [pieces]
  cases hp : (s.fieldsAt positions).mapM (fixedField g r) with
  | error e => rfl
  | ok pieces =>
    have whole := block_of_length (lengths pieces hp)
    exact congrArg (fun bytes => (liftM (Except.ok bytes) : Write (List UInt8))) whole

theorem concat_append {α : Type} (write : α → Write (List UInt8)) (front back : List α) :
    concat write (front ++ back) =
      (do return (← concat write front) ++ (← concat write back)) := by
  induction front with
  | nil => simp [concat]
  | cons a front ih =>
    simp only [List.cons_append, concat, ih, bind_assoc, pure_bind, List.append_assoc]

/-- Following the plan comes to the same as writing one field after the other. -/
theorem concat_covers (scalars : WritesScalars g payload) {steps : List PlanStep}
    {fields : List Field} (covers : s.Covers steps fields) :
    concat (step env g payload s r) steps = concat (field env g payload s r) fields := by
  induction covers with
  | nil => rfl
  | run fixed _ ih =>
    rw [concat_append, ← step_run scalars fixed, ← ih]
    rfl
  | field found _ ih =>
    have single : ∀ position, step env g payload s r (.field position) =
        concat (field env g payload s r) s.fields[position]?.toList := fun _ => rfl
    simp [concat, single, found, ih]

end Write

/-! ## Reading a run -/

namespace Decode

theorem bind_of_get {α : Type} (f : Reader → Decode α) (r : Reader) :
    (do f (← get)) r = f r r := rfl

theorem bytes_append (p : Nat) (front back : List UInt8) :
    bytes front.length ⟨p, front ++ back⟩ = .ok front ⟨p + front.length, back⟩ := by
  unfold bytes
  rw [bind_of_get, splitExactly_append]
  rfl

theorem bytes_short {n p : Nat} {rest : List UInt8} (h : rest.length < n) :
    bytes n ⟨p, rest⟩ = .error (.outOfBounds p n (p + rest.length)) ⟨p, rest⟩ := by
  unfold bytes
  rw [bind_of_get, splitExactly_eq_none_iff.2 h]
  rfl

theorem octet_eq (r : Reader) : octet r = ((fun bs => (bs.headD 0).toNat) <$> bytes 1) r := by
  obtain ⟨p, _ | ⟨b, rest⟩⟩ := r <;> rfl

/-- A value of fixed width is its bytes, read as that value; it is never null. -/
theorem fixedScalar_eq (ht : t.builtin? = some b) (hb : b.Fixed w) :
    ∃ value : List UInt8 → Value, (∀ bs, (value bs).isNull = false) ∧
      fixedScalar t = value <$> bytes w := by
  cases hb with
  | bool =>
    refine ⟨fun bs => .bool ((bs.headD 0).toNat ≠ 0), fun _ => rfl, ?_⟩
    have octet : octet = (fun bs => (bs.headD 0).toNat) <$> bytes 1 := funext octet_eq
    simp [fixedScalar, ht, bool, octet]
  | int kind =>
    refine ⟨fun bs => .int (.wrap kind (if kind.isSigned then
      toSigned kind.bytes (ofLittleEndian bs) else Int.ofNat (ofLittleEndian bs))),
      fun _ => rfl, ?_⟩
    cases h : kind.isSigned <;> simp [fixedScalar, ht, integer, h, signed, littleEndian]
  | float32 =>
    exact ⟨fun bs => .float32 (ofLittleEndian bs).toUInt32, fun _ => rfl,
      by simp [fixedScalar, ht, float32, littleEndian]⟩
  | float64 =>
    exact ⟨fun bs => .float64 (ofLittleEndian bs).toUInt64, fun _ => rfl,
      by simp [fixedScalar, ht, float64, littleEndian]⟩

end Decode

/-- The graph with a field of a record set. -/
def Graph.withField (g : Graph) (h : Handle) (name : String) (v : Value) : Graph :=
  match g.node h with
  | .record r => g.set h (.record (r.set name v))
  | _ => g

namespace Read

variable {env : Environment} {s : StructType} {limits : SizeLimits} {payload : ReadPayload}
  {h : Handle}

theorem setField_apply (h : Handle) (name : String) (v : Value) (st : ReadState) :
    setField h name v st = .ok () { st with graph := st.graph.withField h name v } := by
  show EStateM.Result.ok () _ = EStateM.Result.ok () _
  unfold Graph.withField
  dsimp only
  cases st.graph.node h <;> rfl

theorem scalar_fixed (ht : t.builtin? = some b) (hb : b.Fixed w) :
    scalar limits t = decode (Decode.fixedScalar t) := by
  cases hb <;> simp [scalar, Decode.fixedScalar, ht]

theorem decode_map {α β : Type} (f : α → β) (d : Decode α) :
    decode (f <$> d) = f <$> decode d := by
  funext st
  simp only [decode, map_eq_pure_bind, bind_apply]
  rw [show (d >>= fun a => pure (f a)) st.reader = EStateM.bind d (fun a => pure (f a)) _ from rfl]
  unfold EStateM.bind
  cases d st.reader <;> rfl

variable (env s h) in
/-- A field of fixed width is its bytes, taken as a value that is never null. -/
theorem field_fixed (scalars : ReadsScalars limits payload) {f : Field} (hf : f.Fixed w) :
    ∃ value : List UInt8 → Value, Decode.fixedScalar f.type = value <$> Decode.bytes w ∧
      field env payload s h f =
        decode (Decode.bytes w) >>= fun bytes => setField h f.name (value bytes) := by
  obtain ⟨b, ht, hb⟩ := hf.width
  obtain ⟨value, solid, fixed⟩ := Decode.fixedScalar_eq ht hb
  have untyped : f.hasTypeInfo s.isCompatible = false := by
    simp [Field.hasTypeInfo, hf.untyped, hf.shape, Shape.isNamed]
  have bytes : marked env payload f.refMode (f.hasTypeInfo s.isCompatible) f.shape =
      value <$> decode (Decode.bytes w) := by
    rw [hf.unmarked, untyped, hf.shape]
    refine (scalars f.type _ _ (isContainer_of_builtin? ht)).trans ?_
    rw [scalar_fixed ht hb, fixed, decode_map]
  exact ⟨value, fixed, by simp [field, bytes, solid]⟩

theorem decode_bytes (st : ReadState) {front back : List UInt8}
    (hr : st.reader.rest = front ++ back) :
    decode (Decode.bytes front.length) st =
      .ok front { st with reader := ⟨st.reader.position + front.length, back⟩ } := by
  simp only [decode]
  rw [show st.reader = ⟨st.reader.position, front ++ back⟩ from hr ▸ rfl, Decode.bytes_append]

theorem decode_bytes_short {st : ReadState} (hr : st.reader.rest.length < w) :
    ∃ e, decode (Decode.bytes w) st = .error e st ∧ e.kind = .bufferOutOfBound :=
  ⟨_, by simp only [decode]; rw [Decode.bytes_short hr], rfl⟩

variable (env s h) in
/-- Fields of fixed width, when the input has their bytes. -/
theorem each_fixed (scalars : ReadsScalars limits payload) {fields : List Field} {width : Nat}
    (run : FixedRun fields width) : ∀ (st : ReadState) (front back : List UInt8),
      front.length = width → st.reader.rest = front ++ back →
      ∃ values, blockValues fields front = .ok values ∧
        each (field env payload s h) fields st = each (fun (name, v) => setField h name v) values
          { st with reader := ⟨st.reader.position + width, back⟩ } := by
  induction run with
  | nil =>
    intro st front back hl hr
    cases List.length_eq_zero_iff.1 hl
    have here : { st with reader := ⟨st.reader.position + 0, back⟩ } = st := by
      rw [show back = st.reader.rest from hr.symm]
      rfl
    exact ⟨[], rfl, by rw [here]; rfl⟩
  | @cons f w fields width hf _ ih =>
    intro st front back hl hr
    obtain ⟨value, fixed, hfield⟩ := field_fixed env s h scalars hf
    obtain ⟨b, ht, hb⟩ := hf.width
    have hw := primitiveSize_of_fixed ht hb
    obtain ⟨a, later, rfl, ha⟩ : ∃ a later, front = a ++ later ∧ a.length = w :=
      ⟨front.take w, front.drop w, by simp, by simp; omega⟩
    subst ha
    rw [List.append_assoc] at hr
    let next : ReadState := { st with
      reader := ⟨st.reader.position + a.length, later ++ back⟩
      graph := st.graph.withField h f.name (value a) }
    have first : field env payload s h f st = .ok () next := by
      rw [hfield, bind_of_ok (decode_bytes st hr), setField_apply]
    obtain ⟨values, hv, rest⟩ := ih next later back (by simp at hl; omega) rfl
    have scalar : (Decode.fixedScalar f.type).run (.ofBytes a) = .ok (value a) ⟨a.length, []⟩ := by
      have bytes := Decode.bytes_append 0 a []
      rw [List.append_nil] at bytes
      rw [fixed, EStateM.run, Reader.ofBytes]
      simp only [Functor.map, EStateM.map, bytes, Nat.zero_add]
    refine ⟨(f.name, value a) :: values, ?_, ?_⟩
    · simp only [blockValues, hw, List.take_left', List.drop_left', scalar, hv]
      rfl
    · simp only [each]
      rw [bind_of_ok first, rest, bind_of_ok (setField_apply ..)]
      simp only [next, Nat.add_assoc]

variable (env s h) in
theorem each_fixed_short (scalars : ReadsScalars limits payload) {fields : List Field}
    {width : Nat} (run : FixedRun fields width) : ∀ st : ReadState, st.reader.rest.length < width →
      ∃ e st', each (field env payload s h) fields st = .error e st' ∧
        e.kind = .bufferOutOfBound := by
  induction run with
  | nil => exact fun st short => absurd short (Nat.not_lt_zero _)
  | @cons f w fields width hf _ ih =>
    intro st short
    obtain ⟨value, -, hfield⟩ := field_fixed env s h scalars hf
    by_cases room : w ≤ st.reader.rest.length
    · obtain ⟨a, later, hr, ha⟩ : ∃ a later, st.reader.rest = a ++ later ∧ a.length = w :=
        ⟨st.reader.rest.take w, st.reader.rest.drop w, by simp, by simp [room]⟩
      subst ha
      let next : ReadState := { st with
        reader := ⟨st.reader.position + a.length, later⟩
        graph := st.graph.withField h f.name (value a) }
      have first : field env payload s h f st = .ok () next := by
        rw [hfield, bind_of_ok (decode_bytes st hr), setField_apply]
      have room : later.length < width := by rw [hr] at short; simp at short; omega
      simp only [each]
      rw [bind_of_ok first]
      exact ih next room
    · obtain ⟨e, he, kind⟩ := decode_bytes_short (Nat.not_le.1 room)
      refine ⟨e, st, ?_, kind⟩
      simp only [each]
      rw [bind_of_error]
      rw [hfield, bind_of_error he]

/-- A run of the plan is its fields, one after the other; where the input ends too early, both
ways end in the same kind of error. -/
theorem step_run (scalars : ReadsScalars limits payload) {other : ReadPayload} {env' : Environment}
    {positions : List Nat} {width : Nat} (run : FixedRun (s.fieldsAt positions) width)
    (st : ReadState) :
    step env' other s h (.run positions width) st =
        each (field env payload s h) (s.fieldsAt positions) st ∨
      ∃ e₁ st₁ e₂ st₂, step env' other s h (.run positions width) st = .error e₁ st₁ ∧
        each (field env payload s h) (s.fieldsAt positions) st = .error e₂ st₂ ∧
        e₁.kind = e₂.kind := by
  have unfolded : step env' other s h (.run positions width) =
      decode (Decode.bytes width) >>= fun bytes =>
        check (blockValues (s.fieldsAt positions) bytes) >>= fun values =>
          each (fun (name, v) => setField h name v) values := rfl
  rw [unfolded]
  by_cases room : width ≤ st.reader.rest.length
  · obtain ⟨front, back, hr, hl⟩ : ∃ front back, st.reader.rest = front ++ back ∧
        front.length = width :=
      ⟨st.reader.rest.take width, st.reader.rest.drop width, by simp, by simp [room]⟩
    obtain ⟨values, hv, rest⟩ := each_fixed env s h scalars run st front back hl hr
    subst hl
    refine .inl ?_
    rw [bind_of_ok (decode_bytes st hr), hv, rest]
    rfl
  · obtain ⟨e, he, kind⟩ := decode_bytes_short (Nat.not_le.1 room)
    obtain ⟨e', st', he', kind'⟩ :=
      each_fixed_short env s h scalars run st (Nat.not_le.1 room)
    exact .inr ⟨e, st, e', st', bind_of_error he, he', kind.trans kind'.symm⟩

end Read

end Graphwire
