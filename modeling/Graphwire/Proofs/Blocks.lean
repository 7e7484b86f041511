import Graphwire.Proofs.Ceilings
import Graphwire.Proofs.Plans
import Graphwire.Proofs.Structs
import Mathlib.Algebra.Ring.Nat
import Mathlib.Data.List.Chain

/-!
# Blocks that are filled

A plan takes the fields of a struct in their order. It puts adjacent primitives of fixed width into runs
as long as possible, provided that neither a marker nor a type precedes their values, and every other
field into a step of its own. The width of a run is told by the types of its fields; what is written is
told by the values, and what is read by the types again. All three come to the same number of bytes. So a
writer that looks before it puts a value into a block, and a reader that looks before it takes one out,
never find themselves out of range.
-/

namespace Graphwire

set_option autoImplicit false

/-! ## Fields of fixed width -/

/-- Whether a field was resolved from a declaration whose shape is supported. -/
def Field.Supported (f : Field) : Prop :=
  ∃ lookup trackRef declaring index, ∃ decl : FieldDecl,
    f = .resolve lookup trackRef declaring index decl ∧ decl.shape.undeclarable? = none

/-- Whether a field is a primitive of fixed width, with neither a marker nor a type before its value. -/
structure Field.Solid (f : Field) : Prop where
  primitive : ∃ t, f.shape = .scalar t ∧ t.isPrimitive = true ∧ t.isCompressed = false
  untyped : f.dynamic = false
  required : f.nullable = false
  untracked : f.tracked = false

theorem Field.Supported.scalar {f : Field} (supported : f.Supported) {t : TypeId}
    (shape : f.shape = .scalar t) : f.type = t ∧ t.isDeclarable = true := by
  obtain ⟨lookup, trackRef, declaring, index, decl, rfl, declarable⟩ := supported
  have shape : decl.shape = .scalar t := shape
  rw [shape] at declarable
  refine ⟨?_, by simpa [Shape.undeclarable?] using declarable⟩
  show decl.shape.typeId lookup = t
  rw [shape]
  rfl

/-- Of the scalar types that can be declared, primitives are of fixed width unless they are compressed. -/
theorem TypeId.fixed_iff_of_declarable {t : TypeId} (declarable : t.isDeclarable = true) :
    (∃ b w, t.builtin? = some b ∧ b.Fixed w) ↔ t.isPrimitive = true ∧ t.isCompressed = false := by
  obtain ⟨b, ht⟩ := Option.isSome_iff_exists.1 declarable
  obtain ⟨code⟩ := t
  unfold builtin? at ht
  dsimp only at ht
  split at ht <;> cases ht
  all_goals
    first
    | exact iff_of_true ⟨_, _, rfl, by constructor⟩ (by decide)
    | exact iff_of_false (fun ⟨_, _, ht, hb⟩ => by cases ht; cases hb) (by decide)

theorem Field.refMode_eq_none_iff {f : Field} :
    f.refMode = .none ↔ f.nullable = false ∧ f.tracked = false := by
  unfold refMode
  cases f.nullable <;> cases f.tracked <;> decide

theorem Field.Fixed.solid {f : Field} {w : Nat} (fixed : f.Fixed w) (supported : f.Supported) :
    f.Solid := by
  have declarable := (supported.scalar fixed.shape).2
  obtain ⟨b, ht, hb⟩ := fixed.width
  obtain ⟨required, untracked⟩ := refMode_eq_none_iff.1 fixed.unmarked
  have sort := (TypeId.fixed_iff_of_declarable declarable).1 ⟨b, w, ht, hb⟩
  exact ⟨⟨_, fixed.shape, sort⟩, fixed.untyped, required, untracked⟩

theorem Field.Solid.fixedWidth? {f : Field} (solid : f.Solid) (supported : f.Supported) :
    f.fixedWidth?.isSome = true := by
  obtain ⟨⟨t, shape, sort⟩, untyped, required, untracked⟩ := solid
  obtain ⟨b, w, ht, hb⟩ := (TypeId.fixed_iff_of_declarable (supported.scalar shape).2).2 sort
  have unmarked := refMode_eq_none_iff.2 ⟨required, untracked⟩
  unfold Field.fixedWidth?
  rw [shape]
  dsimp only
  rw [ht, unmarked, untyped]
  cases hb <;> rfl

theorem FixedRun.width_eq {fields : List Field} {width : Nat} (run : FixedRun fields width) :
    width = (fields.map (·.type.primitiveSize)).sum := by
  induction run with
  | nil => rfl
  | cons hf _ ih =>
    obtain ⟨b, ht, hb⟩ := hf.width
    rw [List.map_cons, List.sum_cons, ← ih, primitiveSize_of_fixed ht hb]

/-! ## Plans -/

/-- Whether fields of fixed width stand at the given positions, and are that wide in total. -/
structure IsRun (fields : List Field) (positions : List Nat) (width : Nat) : Prop where
  inRange : ∀ i ∈ positions, i < fields.length
  fixed : FixedRun (positions.filterMap fun i => fields[i]?) width

theorem IsRun.nil (fields : List Field) : IsRun fields [] 0 :=
  ⟨fun _ here => absurd here List.not_mem_nil, .nil⟩

theorem IsRun.concat {fields : List Field} {positions : List Nat} {width i w : Nat} {f : Field}
    (run : IsRun fields positions width) (found : fields[i]? = some f) (hf : f.Fixed w) :
    IsRun fields (positions ++ [i]) (width + w) := by
  refine ⟨List.forall_mem_append.2 ⟨run.inRange, List.forall_mem_singleton.2 ?_⟩, ?_⟩
  · exact (List.getElem?_eq_some_iff.1 found).1
  · rw [List.filterMap_append, List.filterMap_cons_some found]
    exact run.fixed.concat hf

theorem IsRun.of_nil {fields : List Field} {width : Nat} (run : IsRun fields [] width) : width = 0 := by
  cases run.fixed
  rfl

theorem IsRun.of_cons {fields : List Field} {i : Nat} {rest : List Nat} {width : Nat}
    (run : IsRun fields (i :: rest) width) : ∃ f w others, fields[i]? = some f ∧ f.Fixed w ∧
      IsRun fields rest others ∧ width = w + others := by
  obtain ⟨here, inRange⟩ := List.forall_mem_cons.1 run.inRange
  have found := List.getElem?_eq_getElem here
  have fixed := run.fixed
  rw [List.filterMap_cons_some found] at fixed
  cases fixed with
  | cons hf later => exact ⟨_, _, _, found, hf, ⟨inRange, later⟩, rfl⟩

namespace PlanStep

/-- The positions of the fields of a step. -/
def positions : PlanStep → List Nat
  | run positions _ => positions
  | field position => [position]

def isRun : PlanStep → Bool
  | run .. => true
  | field _ => false

/-- Whether a step is a run of fields of fixed width, or a single field of another kind. -/
def Sorted (fields : List Field) : PlanStep → Prop
  | run positions width => positions ≠ [] ∧ IsRun fields positions width
  | field position => ∃ f, fields[position]? = some f ∧ f.fixedWidth? = none

theorem flatMap_ofRun (pending : List Nat) (width : Nat) :
    (ofRun pending width).flatMap positions = pending := by
  unfold ofRun
  split
  · exact Eq.symm ‹_›
  · exact List.append_nil _

theorem sorted_ofRun {fields : List Field} {pending : List Nat} {width : Nat}
    (run : IsRun fields pending width) : ∀ step ∈ ofRun pending width, step.Sorted fields := by
  unfold ofRun
  split
  · exact nofun
  · exact List.forall_mem_singleton.2 ⟨‹_›, run⟩

end PlanStep

/-- The steps of a plan go through all positions in order. -/
theorem flatMap_planFrom (position : Nat) (pending : List Nat) (width : Nat) (rest : List Field) :
    (planFrom position pending width rest).flatMap PlanStep.positions =
      pending ++ List.range' position rest.length := by
  induction rest generalizing position pending width with
  | nil => simp [planFrom, PlanStep.flatMap_ofRun]
  | cons f rest ih =>
    rw [List.length_cons, List.range'_succ, planFrom]
    split
    · rw [ih, List.append_assoc]
      rfl
    · rw [List.flatMap_append, PlanStep.flatMap_ofRun, List.flatMap_cons, ih]
      rfl

theorem sorted_planFrom {fields : List Field}
    (scalarType : ∀ f ∈ fields, ∀ t, f.shape = .scalar t → f.type = t) (rest : List Field)
    (position : Nat) (pending : List Nat) (width : Nat) (here : fields.drop position = rest)
    (run : IsRun fields pending width) :
    ∀ step ∈ planFrom position pending width rest, step.Sorted fields := by
  induction rest generalizing position pending width with
  | nil => exact PlanStep.sorted_ofRun run
  | cons f rest ih =>
    have found : fields[position]? = some f := by
      rw [← Nat.add_zero position, ← List.getElem?_drop, here]
      rfl
    have next : fields.drop (position + 1) = rest := by
      rw [← List.tail_drop, here]
      rfl
    have scalarType := scalarType f (List.mem_of_getElem? found)
    rw [planFrom]
    split
    · rename_i w hw
      exact ih _ _ _ next (run.concat found (Field.fixed_of_fixedWidth? scalarType hw))
    · rename_i hw
      refine List.forall_mem_append.2 ⟨PlanStep.sorted_ofRun run, List.forall_mem_cons.2 ⟨?_, ?_⟩⟩
      · exact ⟨f, found, hw⟩
      · exact ih (position + 1) [] 0 next (.nil fields)

/-- A run is followed by a single field or by nothing. -/
theorem isChain_planFrom (position : Nat) (pending : List Nat) (width : Nat) (rest : List Field) :
    (planFrom position pending width rest).IsChain fun a b => ¬(a.isRun = true ∧ b.isRun = true) := by
  induction rest generalizing position pending width with
  | nil =>
    unfold planFrom PlanStep.ofRun
    split
    · exact .nil
    · exact .singleton _
  | cons f rest ih =>
    rw [planFrom]
    split
    · exact ih ..
    · have single : (PlanStep.field position :: planFrom (position + 1) [] 0 rest).IsChain
          fun a b => ¬(a.isRun = true ∧ b.isRun = true) := by
        refine List.isChain_cons.2 ⟨fun _ _ both => ?_, ih ..⟩
        exact Bool.false_ne_true both.1
      unfold PlanStep.ofRun
      split
      · exact single
      · exact .cons_cons (fun both => Bool.false_ne_true both.2) single

/-- What makes steps the plan of fields. -/
structure IsPlan (fields : List Field) (plan : List PlanStep) : Prop where
  positions : plan.flatMap PlanStep.positions = List.range fields.length
  solid_iff : ∀ (i : Nat) (f : Field), fields[i]? = some f →
    ((∃ positions width, .run positions width ∈ plan ∧ i ∈ positions) ↔ f.Solid)
  apart : plan.IsChain fun a b => ¬(a.isRun = true ∧ b.isRun = true)
  nonempty : ∀ positions width, .run positions width ∈ plan → positions ≠ []
  width : ∀ positions width, .run positions width ∈ plan →
    width = ((positions.filterMap fun i => fields[i]?).map (·.type.primitiveSize)).sum

theorem sorted_fieldPlan {fields : List Field} (supported : ∀ f ∈ fields, f.Supported) :
    ∀ step ∈ fieldPlan fields, step.Sorted fields := by
  have scalarType : ∀ f ∈ fields, ∀ t, f.shape = .scalar t → f.type = t :=
    fun f hf t ht => ((supported f hf).scalar ht).1
  exact sorted_planFrom scalarType fields 0 [] 0 rfl (.nil fields)

theorem isPlan_fieldPlan {fields : List Field} (supported : ∀ f ∈ fields, f.Supported) :
    IsPlan fields (fieldPlan fields) := by
  have sorted := sorted_fieldPlan supported
  have positions : (fieldPlan fields).flatMap PlanStep.positions = List.range fields.length := by
    rw [fieldPlan, flatMap_planFrom, List.range_eq_range', List.nil_append]
  refine ⟨positions, fun i f found => ⟨?_, fun solid => ?_⟩, isChain_planFrom .., ?_, ?_⟩
  · rintro ⟨ps, w, member, here⟩
    have run : FixedRun (ps.filterMap fun i => fields[i]?) w := (sorted _ member).2.fixed
    obtain ⟨w, fixed⟩ := run.fixed f (List.mem_filterMap.2 ⟨i, here, found⟩)
    exact fixed.solid (supported f (List.mem_of_getElem? found))
  · have inPlan : i ∈ (fieldPlan fields).flatMap PlanStep.positions := by
      rw [positions]
      exact List.mem_range.2 (List.getElem?_eq_some_iff.1 found).1
    obtain ⟨step, member, here⟩ := List.mem_flatMap.1 inPlan
    cases step with
    | run ps w => exact ⟨ps, w, member, here⟩
    | field p =>
      cases List.mem_singleton.1 here
      obtain ⟨f', found', unfixed⟩ := sorted _ member
      cases found.symm.trans found'
      have wide := solid.fixedWidth? (supported f (List.mem_of_getElem? found))
      rw [unfixed] at wide
      cases wide
  · exact fun ps w member => (sorted _ member).1
  · exact fun ps w member => (sorted _ member).2.fixed.width_eq

/-! ## Blocks -/

/-- A block with bytes put over it from a position on, if it has room for them there. -/
def overwrite? (block : List UInt8) (position : Nat) (bytes : List UInt8) : Option (List UInt8) :=
  if position + bytes.length ≤ block.length then
    some (block.take position ++ bytes ++ block.drop (position + bytes.length))
  else none

/-- The bytes of a block from a position on, if it has as many there. -/
def slice? (block : List UInt8) (position size : Nat) : Option (List UInt8) :=
  if position + size ≤ block.length then some ((block.drop position).take size) else none

theorem overwrite?_append (front bytes : List UInt8) (n : Nat) :
    overwrite? (front ++ List.replicate (bytes.length + n) 0) front.length bytes =
      some (front ++ bytes ++ List.replicate n 0) := by
  have room : front.length + bytes.length ≤ (front ++ List.replicate (bytes.length + n) 0).length := by
    simp
  rw [overwrite?, if_pos room, List.take_left', List.drop_append, List.drop_replicate]
  · simp
  · rfl

theorem slice?_append (front bytes back : List UInt8) :
    slice? (front ++ (bytes ++ back)) front.length bytes.length = some bytes := by
  have room : front.length + bytes.length ≤ (front ++ (bytes ++ back)).length := by
    simp
  rw [slice?, if_pos room, List.drop_left', List.take_left'] <;> rfl

/-- What an option holds, or else an alarm. -/
def expect {α : Type} (alarm : Error) : Option α → Except Error α
  | some a => .ok a
  | none => .error alarm

/-! ## Looking before writing -/

namespace Write

variable (alarm : Error) (env : Environment) (g : Graph) (payload : WritePayload) (s : StructType)
  (r : Record)

/-- Puts the fields at some positions into a block, one after the other, and says where they end. There
is an alarm when there is no field at a position, or no room for it. -/
def fill : List Nat → Nat → List UInt8 → Except Error (Nat × List UInt8)
  | [], position, block => .ok (position, block)
  | i :: rest, position, block => do
    let f ← expect alarm s.fields[i]?
    let bytes ← fixedField g r f
    let block ← expect alarm (overwrite? block position bytes)
    fill rest (position + bytes.length) block

/-- The fields of a run in a block of its width. There is an alarm, too, when they do not fill it. -/
def filledRun (positions : List Nat) (width : Nat) : Except Error (List UInt8) := do
  let (filled, bytes) ← fill alarm g s r positions 0 (List.replicate width 0)
  if filled = width then return bytes else throw alarm

/-- A step of the plan, with an alarm where it would be out of range. -/
def carefulStep : PlanStep → Write (List UInt8)
  | .run positions width => (filledRun alarm g s r positions width : Except Error (List UInt8))
  | .field position => do
    let f ← (expect alarm s.fields[position]? : Except Error Field)
    field env g payload s r f

variable {alarm env g payload s r}

theorem fill_cons {i : Nat} {f : Field} (found : s.fields[i]? = some f) (rest : List Nat)
    (position : Nat) (block : List UInt8) :
    fill alarm g s r (i :: rest) position block =
      fixedField g r f >>= fun bytes =>
        expect alarm (overwrite? block position bytes) >>= fun block =>
          fill alarm g s r rest (position + bytes.length) block := by
  rw [fill, found]
  rfl

/-- A run is put into its block without an alarm, after what stands in front of it. -/
theorem fill_eq {positions : List Nat} : ∀ {width : Nat}, IsRun s.fields positions width →
    ∀ front : List UInt8,
      fill alarm g s r positions front.length (front ++ List.replicate width 0) =
        (fun pieces => (front.length + width, front ++ pieces.flatten)) <$>
          (s.fieldsAt positions).mapM (fixedField g r) := by
  -- what a field writes joins the front, and leaves as much room as the later fields need
  induction positions with
  | nil =>
    intro width run front
    cases run.of_nil
    rfl
  | cons i rest ih =>
    intro width run front
    obtain ⟨f, w, others, found, fixed, later, rfl⟩ := run.of_cons
    have fields : s.fieldsAt (i :: rest) = f :: s.fieldsAt rest := List.filterMap_cons_some found
    rw [fields, fill_cons found, List.mapM_cons]
    cases hp : fixedField g r f with
    | error e => rfl
    | ok piece =>
      have hw : w = piece.length := (length_fixedField fixed hp).symm
      subst hw
      have next := ih later (front ++ piece)
      rw [List.length_append] at next
      show expect alarm (overwrite? _ _ piece) >>= _ = _
      rw [overwrite?_append]
      refine next.trans ?_
      cases (s.fieldsAt rest).mapM (fixedField g r) with
      | error e => rfl
      | ok pieces =>
        refine congrArg Except.ok (Prod.ext (Nat.add_assoc ..) ?_)
        exact List.append_assoc ..

theorem filledRun_eq {positions : List Nat} {width : Nat} (run : IsRun s.fields positions width) :
    filledRun alarm g s r positions width = fixedRun g s r positions width := by
  have filled : fill alarm g s r positions [].length ([] ++ List.replicate width 0) = _ := fill_eq run []
  rw [List.length_nil, List.nil_append, Nat.zero_add] at filled
  have unfolded : fixedRun g s r positions width =
      (s.fieldsAt positions).mapM (fixedField g r) >>= fun pieces =>
        pure (block width pieces.flatten) := rfl
  rw [filledRun, filled, unfolded]
  cases hp : (s.fieldsAt positions).mapM (fixedField g r) with
  | error e => rfl
  | ok pieces =>
    have whole : block width pieces.flatten = pieces.flatten :=
      block_of_length (length_pieces run.fixed hp)
    show (if width = width then _ else _) = Except.ok (block width pieces.flatten)
    rw [if_pos rfl, whole]
    rfl

theorem carefulStep_eq {step : PlanStep} (sorted : step.Sorted s.fields) :
    carefulStep alarm env g payload s r step = Write.step env g payload s r step := by
  cases step with
  | run positions width => exact congrArg liftM (filledRun_eq sorted.2)
  | field position =>
    obtain ⟨f, found, -⟩ := sorted
    have single : Write.step env g payload s r (.field position) =
        concat (field env g payload s r) s.fields[position]?.toList := rfl
    rw [single, carefulStep, found, Option.toList_some, concat, concat]
    simp only [pure_bind, List.append_nil, bind_pure]
    rfl

end Write

/-! ## Looking before reading -/

namespace Decode

/-- As many bytes as a type of fixed width has are a value of it. -/
theorem run_fixedScalar {t : TypeId} {b : Builtin} (ht : t.builtin? = some b)
    {bytes : List UInt8} (hb : b.Fixed bytes.length) :
    ∃ v, (fixedScalar t).run (.ofBytes bytes) = .ok v ⟨bytes.length, []⟩ := by
  obtain ⟨value, -, fixed⟩ := fixedScalar_eq ht hb
  have whole := bytes_append 0 bytes []
  rw [List.append_nil, Nat.zero_add] at whole
  refine ⟨value bytes, ?_⟩
  rw [fixed, EStateM.run, Reader.ofBytes]
  simp only [Functor.map, EStateM.map, whole]

end Decode

namespace Read

variable (alarm : Error) (env : Environment) (payload : ReadPayload) (s : StructType) (h : Handle)

/-- The values of the fields at some positions, out of a block from a position on. There is an alarm
when there is no field at a position, no slice for it, or too little in it. -/
def slices (block : List UInt8) : List Nat → Nat → Except Error (List (String × Value))
  | [], _ => .ok []
  | i :: rest, position => do
    let f ← expect alarm s.fields[i]?
    let bytes ← expect alarm (slice? block position f.type.primitiveSize)
    match (Decode.fixedScalar f.type).run (.ofBytes bytes) with
    | .ok v _ => do
      let others ← slices block rest (position + f.type.primitiveSize)
      return (f.name, v) :: others
    | .error _ _ => .error alarm

/-- Reads a step of the plan, with an alarm where it would be out of range. -/
def carefulStep : PlanStep → Read Unit
  | .run positions width => do
    let bytes ← decode (Decode.bytes width)
    let values ← check (slices alarm s bytes positions 0)
    each (fun (name, v) => setField h name v) values
  | .field position => do
    let f ← check (expect alarm s.fields[position]?)
    field env payload s h f

variable {alarm env payload s h}

theorem slices_cons {i position : Nat} {f : Field} {block bytes : List UInt8} {v : Value}
    {r : Reader} (found : s.fields[i]? = some f)
    (slice : slice? block position f.type.primitiveSize = some bytes)
    (read : (Decode.fixedScalar f.type).run (.ofBytes bytes) = .ok v r) (rest : List Nat) :
    slices alarm s block (i :: rest) position = (do
      let others ← slices alarm s block rest (position + f.type.primitiveSize)
      return (f.name, v) :: others) := by
  rw [slices, found]
  show (expect alarm (slice? block position f.type.primitiveSize) >>= _) = _
  rw [slice]
  show (match (Decode.fixedScalar f.type).run (.ofBytes bytes) with | .ok v _ => _ | .error _ _ => _) = _
  rw [read]

/-- The values of a run are found in its block without an alarm, after what stands in front of it. -/
theorem slices_eq {positions : List Nat} : ∀ {back : List UInt8},
    IsRun s.fields positions back.length → ∀ front : List UInt8,
      slices alarm s (front ++ back) positions front.length =
        blockValues (s.fieldsAt positions) back := by
  -- likewise, with the bytes of the fields that were read in front
  induction positions with
  | nil => exact fun _ _ => rfl
  | cons i rest ih =>
    intro back run front
    obtain ⟨f, w, others, found, fixed, later, total⟩ := run.of_cons
    have fields : s.fieldsAt (i :: rest) = f :: s.fieldsAt rest := List.filterMap_cons_some found
    obtain ⟨bytes, back, rfl, rfl⟩ : ∃ bytes others, back = bytes ++ others ∧ bytes.length = w :=
      ⟨back.take w, back.drop w, (List.take_append_drop ..).symm, by simp; omega⟩
    have enough : others = back.length := by
      rw [List.length_append] at total
      omega
    obtain ⟨b, ht, hb⟩ := fixed.width
    have hw := primitiveSize_of_fixed ht hb
    obtain ⟨v, read⟩ := Decode.run_fixedScalar ht hb
    have next := ih (enough ▸ later) (front ++ bytes)
    rw [List.length_append, List.append_assoc] at next
    have slice := slice?_append front bytes back
    rw [slices_cons found (hw ▸ slice) read, fields, blockValues, hw, List.take_left', List.drop_left',
      read, next]
    · rfl
    · rfl

theorem carefulStep_eq {step : PlanStep} (sorted : step.Sorted s.fields) :
    carefulStep alarm env payload s h step = Read.step env payload s h step := by
  cases step with
  | run positions width =>
    have careful : carefulStep alarm env payload s h (.run positions width) =
        decode (Decode.bytes width) >>= fun bytes => check (slices alarm s bytes positions 0) >>=
          each (fun (name, v) => setField h name v) := rfl
    have plain : Read.step env payload s h (.run positions width) =
        decode (Decode.bytes width) >>= fun bytes =>
          check (blockValues (s.fieldsAt positions) bytes) >>=
            each (fun (name, v) => setField h name v) := rfl
    rw [careful, plain]
    funext st
    rw [bind_apply, bind_apply]
    cases hr : Decode.bytes width st.reader with
    | error e r => simp only [decode, hr]
    | ok bytes r =>
      have size : bytes.length = width := Decode.gives_bytes width _ _ _ hr
      subst size
      have found : slices alarm s ([] ++ bytes) positions [].length = _ := slices_eq sorted.2 []
      rw [List.nil_append, List.length_nil] at found
      simp only [decode, hr, found]
  | field position =>
    obtain ⟨f, found, -⟩ := sorted
    have single : Read.step env payload s h (.field position) =
        each (field env payload s h) s.fields[position]?.toList := rfl
    rw [single, carefulStep, found, Option.toList_some, each, each]
    exact (bind_pure _).symm

end Read

/-! ## Plans in range -/

theorem Write.concat_congr {α : Type} {write write' : α → Write (List UInt8)} {items : List α}
    (same : ∀ a ∈ items, write a = write' a) : concat write items = concat write' items := by
  induction items with
  | nil => rfl
  | cons a items ih =>
    obtain ⟨first, others⟩ := List.forall_mem_cons.1 same
    rw [concat, concat, first, ih others]

theorem Read.each_congr {α : Type} {one one' : α → Read Unit} {items : List α}
    (same : ∀ a ∈ items, one a = one' a) : each one items = each one' items := by
  induction items with
  | nil => rfl
  | cons a items ih =>
    obtain ⟨first, others⟩ := List.forall_mem_cons.1 same
    rw [each, each, first, ih others]

/-- Whether the plan of a struct can be followed without leaving a range: the fields of a run fill its
block, and no alarm is raised for want of a field, of room or of bytes. -/
structure StructType.InRange (s : StructType) : Prop where
  filled : ∀ (g : Graph) (r : Record) (positions : List Nat) (width : Nat)
    (pieces : List (List UInt8)), .run positions width ∈ s.plan →
    (s.fieldsAt positions).mapM (Write.fixedField g r) = .ok pieces →
    pieces.flatten.length = width
  writes : ∀ (alarm : Error) (env : Environment) (g : Graph) (payload : WritePayload) (r : Record),
    Write.concat (Write.carefulStep alarm env g payload s r) s.plan =
      Write.concat (Write.step env g payload s r) s.plan
  reads : ∀ (alarm : Error) (env : Environment) (payload : ReadPayload) (h : Handle),
    Read.each (Read.carefulStep alarm env payload s h) s.plan =
      Read.each (Read.step env payload s h) s.plan

theorem StructType.inRange_of_sorted {s : StructType} (sorted : ∀ step ∈ s.plan, step.Sorted s.fields) :
    s.InRange where
  filled := fun _ _ _ _ _ member written => Write.length_pieces (sorted _ member).2.fixed written
  writes := fun _ _ _ _ _ => Write.concat_congr fun step member =>
    Write.carefulStep_eq (sorted step member)
  reads := fun _ _ _ _ => Read.each_congr fun step member => Read.carefulStep_eq (sorted step member)

/-- The plan of supported fields goes through all of them, with the primitives of fixed width in runs,
and a struct with these fields and this plan is written and read in range. -/
theorem fieldPlan_inRange (fields : List Field) (supported : ∀ f ∈ fields, f.Supported) :
    IsPlan fields (fieldPlan fields) ∧
      ∀ s : StructType, s.fields = fields → s.plan = fieldPlan fields → s.InRange := by
  refine ⟨isPlan_fieldPlan supported, fun s own plan => s.inRange_of_sorted ?_⟩
  rw [plan, own]
  exact sorted_fieldPlan supported

/-- A plan with two runs: numbers of fixed width at both ends, and between them one whose width varies
and a flag that may be null. -/
theorem fieldPlan_inRange_apart :
    let decls : List FieldDecl := [.ofShape "a" (.scalar .int64), .ofShape "b" (.scalar .int32),
      .ofShape "c" (.scalar .varint32), { FieldDecl.ofShape "d" (.scalar .bool) with nullable := true },
      .ofShape "e" (.scalar .float64)]
    let fields := decls.mapIdx (Field.resolve (fun _ => none) false "demo.T")
    fieldPlan fields = [.run [0, 1] 12, .field 2, .field 3, .run [4] 8] ∧
      (∀ f ∈ fields, f.Supported) ∧ IsPlan fields (fieldPlan fields) ∧
      ∀ s : StructType, s.fields = fields → s.plan = fieldPlan fields → s.InRange := by
  intro decls fields
  have supported : ∀ f ∈ fields, f.Supported := by
    intro f member
    obtain ⟨i, hi, rfl⟩ := List.mem_mapIdx.1 member
    have declarable : ∀ decl ∈ decls, decl.shape.undeclarable? = none := by decide
    exact ⟨_, _, _, _, _, rfl, declarable _ (List.getElem_mem hi)⟩
  exact ⟨rfl, supported, fieldPlan_inRange fields supported⟩

end Graphwire
