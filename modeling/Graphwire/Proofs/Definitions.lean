import Graphwire.Proofs.DefinitionRoundTrip
import Graphwire.Proofs.Described

/-!
# Definitions of structs

A definition that a struct was built with is its header and a layer. A reader of the layer finds the
identity of the struct and an entry for every field, and a reader that only moves over the layer stops
in the same place.
-/

namespace Graphwire

set_option autoImplicit false

open Decode (Yields)

/-! ## Field types -/

namespace TypeId

theorem bound_of_isUser {t : TypeId} (h : t.isUser = true) : t.code < 64 ∧ t.isContainer = false := by
  simp only [isUser, isEnum, isUnion, isStruct, Bool.or_eq_true, List.contains_iff_mem,
    List.mem_cons, List.not_mem_nil, or_false] at h
  rcases h with ((((rfl | rfl) | rfl | rfl | rfl) | rfl | rfl | rfl | rfl) | rfl | rfl) <;>
    exact ⟨by decide, by decide⟩

theorem bound_of_isDeclarable {t : TypeId} (h : t.isDeclarable = true) :
    t.code < 64 ∧ t.isContainer = false := by
  obtain ⟨b, ht⟩ := Option.isSome_iff_exists.1 h
  refine ⟨?_, isContainer_of_builtin? ht⟩
  unfold builtin? at ht
  split at ht <;> first | omega | cases ht

theorem arity_of_not_container {t : TypeId} (scalar : t.isContainer = false) : t.arity = 0 := by
  have other : ¬(t = .list ∨ t = .set) ∧ t ≠ .map := by
    refine ⟨?_, ?_⟩
    · rintro (rfl | rfl) <;> cases scalar
    · rintro rfl
      cases scalar
  rw [arity, if_neg other.1, if_neg other.2]

end TypeId

/-- How many containers of a shape stand inside each other. -/
def Shape.nesting : Shape → Nat
  | list e | set e => e.nesting + 1
  | map k v => max k.nesting v.nesting + 1
  | _ => 0

namespace Shape

variable {shape inner : Shape}

theorem declarable_part (part : shape.parts.1 = some inner ∨ shape.parts.2 = some inner)
    (declarable : shape.undeclarable? = none) : inner.undeclarable? = none := by
  cases shape with
  | list e | set e =>
    rcases part with same | same <;> cases same
    exact declarable
  | map k v =>
    obtain ⟨key, value⟩ := Option.or_eq_none_iff.1 declarable
    rcases part with same | same <;> cases same
    · exact key
    · exact value
  | _ => rcases part with same | same <;> cases same

theorem flags_fieldType (lookup : NamedLookup) (nullable tracked : Bool) (shape : Shape) :
    (shape.fieldType lookup nullable tracked).nullable = nullable ∧
      (shape.fieldType lookup nullable tracked).tracked = tracked := by
  cases shape <;> exact ⟨rfl, rfl⟩

end Shape

namespace FieldType

variable {lookup : NamedLookup} (registered : lookup.Registered)

include registered

/-- The code of a declared shape is small, and not that of a container unless the shape is one. -/
theorem bound_fieldType {shape : Shape} (declarable : shape.undeclarable? = none)
    (nullable tracked : Bool) :
    (shape.fieldType lookup nullable tracked).type.code < 64 ∧
      (shape.parts = (none, none) →
        (shape.fieldType lookup nullable tracked).type.isContainer = false) := by
  cases shape with
  | list e => exact ⟨(by decide : TypeId.list.code < 64), fun parts => by cases parts⟩
  | set e => exact ⟨(by decide : TypeId.set.code < 64), fun parts => by cases parts⟩
  | map k v => exact ⟨(by decide : TypeId.map.code < 64), fun parts => by cases parts⟩
  | dynamic => exact ⟨(by decide : TypeId.unknown.code < 64), fun _ => rfl⟩
  | scalar t =>
    have declared : t.isDeclarable = true := by
      simpa [Shape.undeclarable?] using declarable
    exact (TypeId.bound_of_isDeclarable declared).imp_right fun h _ => h
  | named name =>
    simp only [Shape.fieldType, FieldType.type]
    cases known : lookup name with
    | none => exact ⟨(by decide : TypeId.unknown.code < 64), fun _ => rfl⟩
    | some info => exact (TypeId.bound_of_isUser (registered name info known)).imp_right fun h _ => h

/-- The type of a declared shape can be told with as many levels as the shape has containers. -/
theorem fits_fieldType {levels : Nat} {shape : Shape} (declarable : shape.undeclarable? = none)
    (deep : shape.nesting < levels) (nullable tracked : Bool) :
    (shape.fieldType lookup nullable tracked).Fits levels := by
  induction shape generalizing levels nullable tracked with
  | list e ih | set e ih =>
    obtain ⟨levels, rfl⟩ : ∃ n, levels = n + 1 := ⟨levels - 1, by omega⟩
    obtain ⟨small, -⟩ := bound_fieldType registered declarable nullable tracked
    refine ⟨by omega, rfl, fun g member => ?_⟩
    obtain rfl := List.mem_singleton.1 member
    exact ih declarable (Nat.lt_of_succ_lt_succ deep) false false
  | map k v ihk ihv =>
    obtain ⟨levels, rfl⟩ : ∃ n, levels = n + 1 := ⟨levels - 1, by omega⟩
    have parts : k.undeclarable? = none ∧ v.undeclarable? = none := Option.or_eq_none_iff.1 declarable
    obtain ⟨key, value⟩ := parts
    have deep : max k.nesting v.nesting < levels := Nat.lt_of_succ_lt_succ deep
    obtain ⟨small, -⟩ := bound_fieldType registered declarable nullable tracked
    refine ⟨by omega, rfl, List.forall_mem_cons.2 ⟨?_, List.forall_mem_singleton.2 ?_⟩⟩
    · exact ihk key (by omega) false false
    · exact ihv value (by omega) false false
  | scalar t | named name | dynamic =>
    obtain ⟨levels, rfl⟩ : ∃ n, levels = n + 1 := ⟨levels - 1, by omega⟩
    obtain ⟨small, scalar⟩ := bound_fieldType registered declarable nullable tracked
    refine ⟨by omega, ?_, fun g member => by cases member⟩
    exact (TypeId.arity_of_not_container (scalar rfl)).symm

theorem tellable_fieldType {levels : Nat} {shape : Shape} (declarable : shape.undeclarable? = none)
    (deep : shape.nesting ≤ levels) (nullable tracked : Bool) :
    (shape.fieldType lookup nullable tracked).Tellable levels := by
  obtain ⟨small, arity, parts⟩ :=
    fits_fieldType registered declarable (Nat.lt_succ_of_le deep) nullable tracked
  exact ⟨by omega, arity, parts⟩

end FieldType

/-! ## Entries -/

/-- The shape that peers are told of a field. -/
def Field.toldShape (f : Field) : Shape := if f.dynamic then .dynamic else f.shape

theorem Field.nesting_toldShape_le (f : Field) : f.toldShape.nesting ≤ f.shape.nesting := by
  unfold toldShape
  split
  · exact Nat.zero_le _
  · exact Nat.le_refl _

namespace Field.Described

variable {lookup : NamedLookup} {f : Field} (described : f.Described lookup)

include described

theorem entryType :
    (FieldEntry.ofField f).type = f.toldShape.fieldType lookup f.nullable f.tracked := by
  have retracked : ∀ (shape : Shape) (tracked : Bool),
      (shape.fieldType lookup f.nullable f.refEligible).withTracked tracked =
        shape.fieldType lookup f.nullable tracked := fun shape _ => by cases shape <;> rfl
  simp only [FieldEntry.ofField, described.fieldType, Field.toldShape]
  split
  · rfl
  · exact retracked _ _

theorem toldShape : f.toldShape.undeclarable? = none := by
  unfold Field.toldShape
  split
  · rfl
  · exact described.declarable

/-- The entry of a field that passed the checks can be told if it can be written. -/
theorem tellable {levels : Nat} (registered : lookup.Registered)
    (deep : f.toldShape.nesting ≤ levels)
    (tags : ∀ tag, f.tag = some tag → tag < 2 ^ 15) {bytes : List UInt8}
    (written : (FieldEntry.ofField f).encode = .ok bytes) :
    (FieldEntry.ofField f).Tellable levels := by
  have tag : (FieldEntry.ofField f).tag = f.tag := rfl
  refine ⟨?_, fun t tagged => ⟨described.tag t tagged, tags t tagged, ?_⟩, fun untagged => ?_⟩
  · rw [described.entryType]
    exact FieldType.tellable_fieldType registered described.toldShape deep _ _
  · simp [FieldEntry.ofField, tag ▸ tagged]
  · unfold FieldEntry.encode at written
    rw [untagged] at written
    dsimp only at written
    split at written
    · cases written
    · assumption

end Field.Described

namespace StructType

/-- What peers are told of a struct by the definition under a header. -/
def told (s : StructType) (header : Int) : TypeDefinition :=
  { definitionOf s.id s.package s.typeName s.fields with hash := header / 2 ^ 14 }

/-- Whether all that the definition of a struct counts fits: 32 bits for the identifier and for sizes,
15 bits for tags, and 64 levels of containers. -/
structure Short (s : StructType) : Prop where
  ident : ∀ n, s.id = some n → n < 2 ^ 32
  definition : ∀ bytes, s.definition = some bytes → bytes.length < 2 ^ 32
  tags : ∀ f ∈ s.fields, ∀ tag, f.tag = some tag → tag < 2 ^ 15
  nesting : ∀ f ∈ s.fields, f.shape.nesting ≤ FieldType.maxDepth

instance (s : StructType) : Decidable s.Short :=
  decidable_of_iff ((∀ n ∈ s.id, n < 2 ^ 32) ∧ (∀ bytes ∈ s.definition, bytes.length < 2 ^ 32) ∧
      (∀ f ∈ s.fields, ∀ tag ∈ f.tag, tag < 2 ^ 15) ∧
        ∀ f ∈ s.fields, f.shape.nesting ≤ FieldType.maxDepth)
    ⟨fun h => ⟨h.1, h.2.1, h.2.2.1, h.2.2.2⟩,
      fun h => ⟨h.ident, h.definition, h.tags, h.nesting⟩⟩

/-- Whether the definition of a struct is a header and what tells of the struct under that header. -/
structure Tells (s : StructType) (header : Int) (after : List UInt8) : Prop where
  definition : s.definition = some (Encode.signed 8 header ++ after)
  front : s.header? = some header
  readHeader : Yields (Decode.signed 8) (Encode.signed 8 header) header
  read : Yields (TypeDefinition.decodeAfter header) after (s.told header)
  skip : Yields (TypeDefinition.skipAfter header) after ()

theorem header?_eq {s : StructType} {header : Int} {after : List UInt8}
    (definition : s.definition = some (Encode.signed 8 header ++ after))
    (range : 0 ≤ header ∧ header < 2 ^ 63) : s.header? = some header := by
  have length : (Encode.signed 8 header).length = 8 := Encode.length_littleEndian ..
  have split := splitExactly_append (Encode.signed 8 header) after
  rw [length] at split
  have value : Decode.toSigned 8 (Decode.ofLittleEndian (Encode.signed 8 header)) = header := by
    unfold Encode.signed
    rw [Decode.ofLittleEndian_littleEndian, Nat.mod_eq_of_lt (by omega)]
    exact Decode.toSigned_mod (by omega) (by omega)
  simp only [header?, definition, Option.bind_some, split, Option.map_some, value]

/-- The definition that a struct was built with can be told with as many levels as it shows. -/
theorem Described.tellable_of_told {s : StructType} (described : s.Described true) {levels : Nat}
    (ident : ∀ n, s.id = some n → n < 2 ^ 32)
    (definition : ∀ bytes, s.definition = some bytes → bytes.length < 2 ^ 32)
    (tags : ∀ f ∈ s.fields, ∀ tag, f.tag = some tag → tag < 2 ^ 15)
    (nesting : ∀ f ∈ s.fields, f.toldShape.nesting ≤ levels) :
    (definitionOf s.id s.package s.typeName s.fields).Tellable levels := by
  obtain ⟨lookup, registered, fields⟩ := described.fields
  obtain ⟨bytes, encoded, same⟩ := described.definition rfl
  obtain ⟨layer, written, whole⟩ := bind_eq_ok_iff.1 encoded
  obtain ⟨entries, mapped, -⟩ := bind_eq_ok_iff.1 written
  refine ⟨fun n named => ident n ?_, fun e member => ?_, fun layer' written' => ?_⟩
  · cases known : s.id with
    | some m => rw [known] at named; cases named; rfl
    | none => rw [known] at named; cases named
  · obtain ⟨f, declared, rfl⟩ := List.mem_map.1 member
    obtain ⟨bytes, -, written⟩ := mem_of_forall₂ (mapM_eq_ok_iff.1 mapped) member
    exact (fields f declared).tellable registered (nesting f declared) (tags f declared) written
  · rw [written] at written'
    cases written'
    have bound := definition bytes same
    cases pure_eq_ok_iff.1 whole
    simp only [List.length_append] at bound
    omega

/-- The definition that a struct was built with can be told. -/
theorem Described.tellable {s : StructType} (described : s.Described true) {levels : Nat}
    (ident : ∀ n, s.id = some n → n < 2 ^ 32)
    (definition : ∀ bytes, s.definition = some bytes → bytes.length < 2 ^ 32)
    (tags : ∀ f ∈ s.fields, ∀ tag, f.tag = some tag → tag < 2 ^ 15)
    (nesting : ∀ f ∈ s.fields, f.shape.nesting ≤ levels) :
    (definitionOf s.id s.package s.typeName s.fields).Tellable levels :=
  described.tellable_of_told ident definition tags fun f member =>
    Nat.le_trans f.nesting_toldShape_le (nesting f member)

/-- A built struct can be told to peers. -/
theorem Described.tells {s : StructType} (described : s.Described true) (short : s.Short) :
    ∃ header after, s.Tells header after := by
  have tellable := described.tellable short.ident short.definition short.tags short.nesting
  obtain ⟨bytes, encoded, definition⟩ := described.definition rfl
  obtain ⟨header, after, same, reads⟩ := tellable.reads
  rw [encoded] at same
  cases same
  exact ⟨header, after, definition, header?_eq definition reads.range, reads.readHeader,
    reads.read.yields tellable, reads.skip⟩

/-- Structs with one definition tell the same. -/
theorem Tells.told_eq {s s' : StructType} {header header' : Int} {after after' : List UInt8}
    (h : s.Tells header after) (h' : s'.Tells header' after') (same : s.definition = s'.definition) :
    header = header' ∧ s.told header = s'.told header' := by
  have front : s.header? = s'.header? := by simp only [header?, same]
  have headers : header = header' := by
    rw [h.front, h'.front] at front
    exact Option.some.inj front
  subst headers
  rw [h.definition, h'.definition] at same
  cases List.append_cancel_left (Option.some.inj same)
  obtain ⟨p, run⟩ := h.read 0 []
  obtain ⟨p', run'⟩ := h'.read 0 []
  rw [run] at run'
  injection run' with told
  exact ⟨rfl, told⟩

end StructType

end Graphwire
