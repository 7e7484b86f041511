import Graphwire.Proofs.Reachable

/-!
# What registering settles about fields

Structs are built from resolved fields that passed the checks of a registration: what peers are told
of a field follows from its shape, no two fields have one tag, and every default can be made. In
compatible mode a struct carries the bytes of the definition of its fields.
-/

namespace Graphwire

set_option autoImplicit false

/-- Whether all types that are known are registered ones. -/
def NamedLookup.Registered (lookup : NamedLookup) : Prop :=
  ∀ name info, lookup name = some info → info.type.isUser = true

theorem Registry.registered_lookup (r : Registry) (compatible : Bool) :
    NamedLookup.Registered (r.lookup compatible) := by
  intro name info found
  unfold Registry.lookup at found
  split at found
  · rename_i entry _
    cases found
    cases entry.id.isSome <;> cases compatible <;> rfl
  · obtain ⟨e, -, rfl⟩ := Option.map_eq_some_iff.1 found
    simp only [EnumType.kind]
    split <;> rfl

/-- Whether a field was resolved with what is known of types, and passed the checks of a
registration. -/
structure Field.Described (lookup : NamedLookup) (f : Field) : Prop where
  fieldType : f.fieldType = if f.dynamic then .mk .unknown f.nullable f.refEligible []
    else f.shape.fieldType lookup f.nullable f.refEligible
  known : f.dynamic = false → f.shape ≠ .dynamic ∧
    ∀ name, f.shape = .named name → (lookup name).isSome = true
  declarable : f.shape.undeclarable? = none
  tag : ∀ tag, f.tag = some tag → 0 ≤ tag
  default : ∃ d, f.missingValue = .ok d

/-- Whether a struct was built from fields that passed the checks of a registration. -/
structure StructType.Described (compatible : Bool) (s : StructType) : Prop where
  fields : ∃ lookup : NamedLookup, lookup.Registered ∧ ∀ f ∈ s.fields, f.Described lookup
  tags : (s.fields.filterMap (·.tag)).Nodup
  definition : compatible = true → ∃ bytes,
    (StructType.definitionOf s.id s.package s.typeName s.fields).encode = .ok bytes ∧
      s.definition = some bytes

/-! ## Checks -/

namespace Registry

theorem forM_eq_ok_iff {α : Type} {check : α → Except Error Unit} {items : List α} :
    items.forM check = .ok () ↔ ∀ a ∈ items, check a = .ok () := by
  induction items with
  | nil => exact ⟨fun _ _ member => absurd member List.not_mem_nil, fun _ => rfl⟩
  | cons a items ih =>
    rw [List.forall_mem_cons, ← ih]
    exact bind_eq_ok_iff.trans ⟨fun ⟨_, first, others⟩ => ⟨first, others⟩,
      fun ⟨first, others⟩ => ⟨(), first, others⟩⟩

theorem checkDecl_eq_ok {owner : String} {f : FieldDecl} (h : checkDecl owner f = .ok ()) :
    (∀ tag, f.tag = some tag → 0 ≤ tag) ∧ f.shape.undeclarable? = none := by
  unfold checkDecl at h
  split at h
  · cases h
  · cases h
  · rename_i nonneg declarable
    refine ⟨fun tag same => ?_, declarable⟩
    rw [same] at nonneg
    simpa [Option.filter] using nonneg

/-- The constant of a field that passed was turned into a value. -/
theorem missingValue_of_checkDefault {r : Registry} {owner : String} {compatible : Bool} {f : Field}
    (h : r.checkDefault owner compatible f = .ok ()) : ∃ d, f.missingValue = .ok d := by
  unfold checkDefault at h
  unfold Field.missingValue
  cases known : f.constant with
  | some c =>
    rw [known] at h
    obtain ⟨t, made, -⟩ := bind_eq_ok_iff.1 h
    exact ⟨some t, by simp only [made]; rfl⟩
  | none =>
    cases f.template with
    | some t => exact ⟨some t, rfl⟩
    | none =>
      cases f.shape with
      | named name => exact ⟨_, rfl⟩
      | _ => exact ⟨none, rfl⟩

theorem checkFields_cons_eq_ok_iff {r : Registry} {owner : String} {compatible : Bool}
    {tags : List Int} {f : Field} {rest : List Field} :
    r.checkFields owner compatible tags (f :: rest) = .ok () ↔
      (∀ tag, f.tag = some tag → tag ∉ tags) ∧ r.checkDefault owner compatible f = .ok () ∧
        r.checkFields owner compatible (f.tag.toList ++ tags) rest = .ok () := by
  have others : (do
        r.checkDefault owner compatible f
        r.checkFields owner compatible (f.tag.toList ++ tags) rest) = Except.ok () ↔
      r.checkDefault owner compatible f = .ok () ∧
        r.checkFields owner compatible (f.tag.toList ++ tags) rest = .ok () :=
    bind_eq_ok_iff.trans ⟨fun ⟨_, first, others⟩ => ⟨first, others⟩,
      fun ⟨first, others⟩ => ⟨(), first, others⟩⟩
  rw [← others, checkFields]
  cases tagged : f.tag with
  | none => exact ⟨fun h => ⟨fun _ same => (by cases same), h⟩, fun h => h.2⟩
  | some tag =>
    dsimp only
    split
    · rename_i taken
      refine ⟨fun h => ?_, fun h => absurd (List.contains_iff_mem.1 taken) (h.1 tag rfl)⟩
      cases h
    · rename_i free
      refine ⟨fun h => ⟨fun other same => ?_, h⟩, fun h => h.2⟩
      cases same
      simpa using free

/-- Fields pass the checks if each of them does and none has the tag of an earlier one. -/
theorem checkFields_eq_ok_iff {r : Registry} {owner : String} {compatible : Bool} {tags : List Int}
    {fields : List Field} :
    r.checkFields owner compatible tags fields = .ok () ↔
      (∀ f ∈ fields, r.checkDefault owner compatible f = .ok ()) ∧
        (fields.filterMap (·.tag)).Nodup ∧ ∀ tag ∈ fields.filterMap (·.tag), tag ∉ tags := by
  induction fields generalizing tags with
  | nil => simp [checkFields]
  | cons f rest ih =>
    rw [checkFields_cons_eq_ok_iff, ih, List.forall_mem_cons]
    cases tagged : f.tag with
    | none =>
      rw [List.filterMap_cons_none tagged]
      simp only [reduceCtorEq, false_implies, implies_true, true_and, Option.toList_none,
        List.nil_append, and_assoc]
    | some tag =>
      rw [List.filterMap_cons_some tagged, List.nodup_cons]
      simp only [Option.some.injEq, Option.toList_some, List.singleton_append, List.mem_cons,
        not_or, forall_eq', forall_eq_or_imp]
      grind

end Registry

/-! ## Building -/

/-- Resolving settles what peers are told. -/
theorem Field.described_resolve {lookup : NamedLookup} {trackRef : Bool} {declaring : String}
    {index : Nat} {f : FieldDecl} (tag : ∀ tag, f.tag = some tag → 0 ≤ tag)
    (declarable : f.shape.undeclarable? = none)
    (default : ∃ d, (Field.resolve lookup trackRef declaring index f).missingValue = .ok d) :
    (Field.resolve lookup trackRef declaring index f).Described lookup := by
  refine ⟨rfl, fun declared => ⟨fun shape => ?_, fun name shape => ?_⟩, declarable, tag, default⟩
  all_goals
    simp only [Field.resolve] at shape declared
    unfold FieldDecl.isDynamic at declared
    rw [shape] at declared
  · cases declared
  · cases known : lookup name with
    | some info => rfl
    | none =>
      simp only [known] at declared
      cases declared

/-- In compatible mode a struct that is built has the bytes of its definition. -/
theorem StructType.definition_of_build {name : String} {id : Option Nat} {isAbstract : Bool}
    {fields : List Field} {s : StructType}
    (h : StructType.build name id isAbstract fields true = .ok s) :
    ∃ bytes, (definitionOf s.id s.package s.typeName s.fields).encode = .ok bytes ∧
      s.definition = some bytes := by
  obtain ⟨v, -, h⟩ := bind_eq_ok_iff.1 h
  obtain ⟨definition, made, h⟩ := bind_eq_ok_iff.1 h
  cases pure_eq_ok_iff.1 h
  obtain ⟨bytes, encoded, same⟩ := map_eq_ok_iff.1 made
  exact ⟨bytes, encoded, same.symm⟩

theorem Registry.described_of_build {r : Registry} {config : Config} {name : String}
    {entry : StructEntry} {s : StructType} (h : r.build config name entry = .ok s) :
    s.Described config.compatible := by
  obtain ⟨chain, -, h⟩ := bind_eq_ok_iff.1 h
  obtain ⟨_, declared, h⟩ := bind_eq_ok_iff.1 h
  obtain ⟨_, checked, h⟩ := bind_eq_ok_iff.1 h
  obtain ⟨passed, tags, -⟩ := checkFields_eq_ok_iff.1 checked
  let fields := resolveFields (r.lookup config.compatible) config.trackRef chain
  have order := canonicalOrder_perm fields
  have described : ∀ f ∈ canonicalOrder fields, f.Described (r.lookup config.compatible) := by
    intro f member
    have member := order.mem_iff.1 member
    have default := missingValue_of_checkDefault (passed f member)
    obtain ⟨i, lt, rfl⟩ := List.mem_mapIdx.1 member
    obtain ⟨tag, declarable⟩ := checkDecl_eq_ok
      (forM_eq_ok_iff.1 declared _ (mem_flattenFields (List.getElem_mem lt)))
    exact Field.described_resolve tag declarable default
  have tags : ((canonicalOrder fields).filterMap (·.tag)).Nodup :=
    ((order.filterMap _).nodup_iff).2 tags
  rw [← (StructType.fields_of_build h).1] at described tags
  exact ⟨⟨_, r.registered_lookup config.compatible, described⟩, tags, fun compatible =>
    StructType.definition_of_build (compatible ▸ h)⟩

theorem Registry.builds_described (config : Config) :
    BuildsOnly config fun _ _ s => s.Described config.compatible :=
  fun _ _ _ _ built => described_of_build built

/-- The structs of a reachable instance passed the checks. -/
theorem Instance.Reachable.described {i : Instance} (reachable : i.Reachable) (sane : i.fault = none)
    {name : String} {s : StructType} (found : i.registry.struct? name = some s) :
    s.Described i.config.compatible := by
  have everywhere := reachable.everywhere
    (P := fun compatible _ _ _ s => s.Described compatible) Registry.builds_described
  obtain ⟨entry, he, hs⟩ := Registry.struct?_eq_some_iff.1 found
  obtain ⟨before, after, same, -⟩ := List.lookup_eq_some_iff.1 he
  exact everywhere sane (name, entry) (by rw [same]; simp) s hs

end Graphwire
