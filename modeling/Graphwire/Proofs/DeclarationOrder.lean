import Graphwire.Proofs.Fingerprints
import Graphwire.Proofs.Rebuilding

/-!
# The order of declaration

Where a field is declared, in which place and by which struct of an inheritance chain, is kept with
the resolved field but enters nothing that is made of it. Fields that are declared in another order,
or by other structs of the chain, come to the same canonical order, and the struct that is built of
them has the same plan, version and definition.
-/

namespace Graphwire

set_option autoImplicit false

/-! ## Sorting into groups -/

/-- The canonical order puts the groups one after the other. -/
theorem groups_canonicalOrder (fields : List Field) :
    (canonicalOrder fields).map FieldGroup.ofField =
      [.primitive, .nullablePrimitive, .internal, .list, .set, .map, .other].flatMap
        fun group => List.replicate (fields.countP fun f => FieldGroup.ofField f = group) group := by
  have block (group : FieldGroup) : (groupFields group fields).map FieldGroup.ofField =
      List.replicate (fields.countP fun f => FieldGroup.ofField f = group) group := by
    have perm := groupFields_perm group fields
    refine List.eq_replicate_iff.2 ⟨?_, fun g member => ?_⟩
    · rw [List.length_map, perm.length_eq, List.countP_eq_length_filter]
    · obtain ⟨f, hf, rfl⟩ := List.mem_map.1 member
      simpa using (List.mem_filter.1 (perm.mem_iff.1 hf)).2
  unfold canonicalOrder
  rw [List.map_flatMap]
  simp only [block]
  rfl

/-- Each group is found again in the canonical order, as it is there. -/
theorem filter_canonicalOrder (group : FieldGroup) (fields : List Field) :
    ((canonicalOrder fields).filter fun f => FieldGroup.ofField f = group) =
      groupFields group fields := by
  have part (g : FieldGroup) : ((groupFields g fields).filter fun f => FieldGroup.ofField f = group) =
      if g = group then groupFields g fields else [] := by
    have members : ∀ f ∈ groupFields g fields, FieldGroup.ofField f = g := fun f member => by
      simpa using (List.mem_filter.1 ((groupFields_perm g fields).mem_iff.1 member)).2
    split
    · exact List.filter_eq_self.2 fun f member => by simp [members f member, ‹g = group›]
    · exact List.filter_eq_nil_iff.2 fun f member => by simp [members f member, ‹g ≠ group›]
  rw [canonicalOrder, List.filter_flatMap]
  simp only [part]
  cases group <;> simp [FieldGroup.all]

/-- Sorting what is sorted changes nothing. -/
theorem canonicalOrder_canonicalOrder (fields : List Field) :
    canonicalOrder (canonicalOrder fields) = canonicalOrder fields := by
  have again (group : FieldGroup) :
      groupFields group (canonicalOrder fields) = groupFields group fields := by
    rw [groupFields, filter_canonicalOrder]
    unfold groupFields
    refine List.mergeSort_of_pairwise (List.pairwise_mergeSort ?_ ?_ _)
    all_goals split
    · exact Field.precedesPrimitive_trans
    · exact Field.precedes_trans
    · exact Field.precedesPrimitive_total
    · exact Field.precedes_total
  rw [canonicalOrder]
  simp only [again]
  rfl

/-! ## Fields without their place -/

/-- A field apart from where it is declared. -/
def Field.unplaced (f : Field) : Field := { f with index := 0, declaringType := "" }

/-- Whether two lists hold the same fields, declared anywhere, and no two of one name or one tag. -/
structure Rearranged (fields fields' : List Field) : Prop where
  perm : (fields.map Field.unplaced).Perm (fields'.map Field.unplaced)
  names : (fields.map (·.name)).Nodup
  tags : (fields.filterMap (·.tag)).Nodup

variable {fields fields' : List Field}

theorem canonicalOrder_unplaced (fields : List Field) :
    canonicalOrder (fields.map Field.unplaced) = (canonicalOrder fields).map Field.unplaced := by
  have part (group : FieldGroup) : groupFields group (fields.map Field.unplaced) =
      (groupFields group fields).map Field.unplaced := by
    have members : (fields.map Field.unplaced).filter (fun f => FieldGroup.ofField f = group) =
        (fields.filter fun f => FieldGroup.ofField f = group).map Field.unplaced := List.filter_map ..
    unfold groupFields
    rw [members, List.map_mergeSort]
    intro f _ g _
    split <;> rfl
  simp only [canonicalOrder, part, List.map_flatMap]

theorem fingerprint_unplaced (fields : List Field) :
    fingerprint (fields.map Field.unplaced) = fingerprint fields := by
  have sorted : (fields.map Field.unplaced).mergeSort Field.precedes =
      (fields.mergeSort Field.precedes).map Field.unplaced :=
    (List.map_mergeSort (f := Field.unplaced) fun _ _ _ _ => rfl).symm
  rw [fingerprint, sorted, List.map_map]
  rfl

theorem fieldPlan_unplaced (fields : List Field) :
    fieldPlan (fields.map Field.unplaced) = fieldPlan fields := by
  refine planFrom_congr ?_ 0 [] 0
  exact List.forall₂_map_left_iff.2 (List.forall₂_same.2 fun f _ => rfl)

theorem definitionOf_unplaced (id : Option Nat) (package typeName : String) (fields : List Field) :
    StructType.definitionOf id package typeName (fields.map Field.unplaced) =
      StructType.definitionOf id package typeName fields := by
  unfold StructType.definitionOf TypeDefinition.ofFields
  rw [List.map_map]
  rfl

namespace Rearranged

theorem keyedApart (same : Rearranged fields fields') : KeyedApart (fields.map Field.unplaced) := by
  refine keyedApart_of_distinct (distinctKeys_of_nodup ?_ ?_)
  · rw [List.map_map]
    exact same.names
  · rw [List.filterMap_map]
    exact same.tags

/-- Fields in any order of declaration have one canonical order. -/
theorem canonicalOrder_eq (same : Rearranged fields fields') :
    (canonicalOrder fields).map Field.unplaced = (canonicalOrder fields').map Field.unplaced := by
  rw [← canonicalOrder_unplaced, ← canonicalOrder_unplaced,
    canonicalOrder_of_perm same.keyedApart same.perm]

theorem fingerprint_eq (same : Rearranged fields fields') :
    fingerprint fields = fingerprint fields' := by
  rw [← fingerprint_unplaced fields, ← fingerprint_unplaced fields',
    fingerprint_of_perm same.keyedApart same.perm]

theorem fieldPlan_eq (same : Rearranged fields fields') :
    fieldPlan (canonicalOrder fields) = fieldPlan (canonicalOrder fields') := by
  rw [← fieldPlan_unplaced, same.canonicalOrder_eq, fieldPlan_unplaced]

theorem definitionOf_eq (same : Rearranged fields fields') (id : Option Nat)
    (package typeName : String) :
    StructType.definitionOf id package typeName (canonicalOrder fields) =
      StructType.definitionOf id package typeName (canonicalOrder fields') := by
  rw [← definitionOf_unplaced, same.canonicalOrder_eq, definitionOf_unplaced]

end Rearranged

/-- What is kept of a struct apart from where its fields are declared. -/
structure StructType.SameLayout (s t : StructType) : Prop where
  fields : s.fields.map Field.unplaced = t.fields.map Field.unplaced
  plan : s.plan = t.plan
  version : s.version = t.version
  definition : s.definition = t.definition

/-- A struct is built of fields in any order of declaration, and has one layout. -/
theorem StructType.build_rearranged (same : Rearranged fields fields') {name : String}
    {id : Option Nat} {isAbstract compatible : Bool} {s : StructType}
    (built : StructType.build name id isAbstract fields compatible = .ok s)
    (isAbstract' : Bool) :
    ∃ t, StructType.build name id isAbstract' fields' compatible = .ok t ∧ s.SameLayout t := by
  obtain ⟨version, hashed, built⟩ := bind_eq_ok_iff.1 built
  rw [structVersion, same.fingerprint_eq] at hashed
  cases compatible with
  | false =>
    cases built
    exact ⟨_, bind_eq_ok_iff.2 ⟨version, hashed, rfl⟩, same.canonicalOrder_eq, same.fieldPlan_eq,
      rfl, rfl⟩
  | true =>
    dsimp only at built
    rw [if_pos rfl, same.definitionOf_eq] at built
    obtain ⟨definition, made, built⟩ := bind_eq_ok_iff.1 built
    cases built
    exact ⟨_, bind_eq_ok_iff.2 ⟨version, hashed, bind_eq_ok_iff.2 ⟨definition, made, rfl⟩⟩,
      same.canonicalOrder_eq, same.fieldPlan_eq, rfl, rfl⟩

/-! ## What a field refers to -/

/-- The names that a shape refers to. -/
def Shape.names : Shape → List String
  | .scalar _ | .dynamic => []
  | .list e | .set e => e.names
  | .map k v => k.names ++ v.names
  | .named name => [name]

theorem Shape.typeId_congr {lookup lookup' : NamedLookup} {s : Shape}
    (known : ∀ name ∈ s.names, lookup name = lookup' name) :
    s.typeId lookup = s.typeId lookup' := by
  cases s with
  | named name => rw [typeId, typeId, known name (List.mem_singleton.2 rfl)]
  | _ => rfl

theorem Shape.fieldType_congr {lookup lookup' : NamedLookup} {s : Shape}
    (known : ∀ name ∈ s.names, lookup name = lookup' name) (nullable tracked : Bool) :
    s.fieldType lookup nullable tracked = s.fieldType lookup' nullable tracked := by
  induction s generalizing nullable tracked with
  | scalar | dynamic => rfl
  | list e ih | set e ih => rw [fieldType, fieldType, ih known]
  | map k v ihk ihv =>
    obtain ⟨keys, values⟩ := List.forall_mem_append.1 known
    rw [fieldType, fieldType, ihk keys, ihv values]
  | named name => rw [fieldType, fieldType, known name (List.mem_singleton.2 rfl)]

theorem FieldDecl.isDynamic_congr {lookup lookup' : NamedLookup} {f : FieldDecl}
    (known : ∀ name ∈ f.shape.names, lookup name = lookup' name) :
    f.isDynamic lookup = f.isDynamic lookup' := by
  unfold isDynamic
  cases shape : f.shape with
  | named name =>
    rw [shape] at known
    simp only [known name (List.mem_singleton.2 rfl)]
  | _ => rfl

/-- How a field is resolved depends on the types that it refers to. -/
theorem Field.resolve_congr {lookup lookup' : NamedLookup} {f : FieldDecl}
    (known : ∀ name ∈ f.shape.names, lookup name = lookup' name) (trackRef : Bool)
    (declaringType : String) (index : Nat) :
    resolve lookup trackRef declaringType index f =
      resolve lookup' trackRef declaringType index f := by
  unfold resolve
  rw [FieldDecl.isDynamic_congr known, Shape.typeId_congr known, Shape.fieldType_congr known]

/-- What is known of a field's place is kept apart from the rest when it is resolved. -/
theorem Field.unplaced_resolve (lookup : NamedLookup) (trackRef : Bool) (declaringType : String)
    (index : Nat) (f : FieldDecl) :
    (resolve lookup trackRef declaringType index f).unplaced = resolve lookup trackRef "" 0 f := rfl

/-! ## Chains that redefine nothing -/

/-- Where no name is declared twice, the resolved fields are the declared ones, each resolved for
itself. -/
theorem unplaced_resolveFields {chain : List StructDecl}
    (names : ((declaredFields chain).map (·.name)).Nodup) (lookup : NamedLookup) (trackRef : Bool) :
    (resolveFields lookup trackRef chain).map Field.unplaced =
      (declaredFields chain).map (Field.resolve lookup trackRef "" 0) := by
  rw [← flattenFields_of_nodup names, List.map_map]
  exact List.ext_getElem (by simp [resolveFields]) fun i _ _ => by
    simp [resolveFields, Field.unplaced_resolve]

theorem declared_of_resolved {lookup : NamedLookup} {trackRef : Bool} {chain : List StructDecl}
    {f : Field} (member : f ∈ resolveFields lookup trackRef chain) :
    ∃ d ∈ declaredFields chain, f.shape = d.shape := by
  obtain ⟨i, lt, rfl⟩ := List.mem_mapIdx.1 member
  exact ⟨_, mem_flattenFields (List.getElem_mem lt), rfl⟩

/-- Whether chains declare the same fields, in any order and by any of their structs, none of them
twice. -/
structure Redistributed (chain chain' : List StructDecl) : Prop where
  perm : (declaredFields chain).Perm (declaredFields chain')
  names : ((declaredFields chain).map (·.name)).Nodup

namespace Registry

variable {r r' : Registry} {config : Config}

/-- Whether two registries know the same of the types that a field refers to. -/
def KnowAlike (r r' : Registry) (compatible : Bool) (f : FieldDecl) : Prop :=
  ∀ name ∈ f.shape.names,
    r.lookup compatible name = r'.lookup compatible name ∧ r.enum? name = r'.enum? name

/-- Chains that declare the same fields are resolved to the same fields. -/
theorem rearranged_resolveFields (config : Config) {chain chain' : List StructDecl}
    (same : Redistributed chain chain') (known : ∀ f ∈ declaredFields chain, r.KnowAlike r' config.compatible f)
    (tags : ((resolveFields (r.lookup config.compatible) config.trackRef chain).filterMap
      (·.tag)).Nodup) :
    Rearranged (resolveFields (r.lookup config.compatible) config.trackRef chain)
      (resolveFields (r'.lookup config.compatible) config.trackRef chain') := by
  refine ⟨?_, names_resolveFields _ _ chain ▸ names_flattenFields chain, tags⟩
  rw [unplaced_resolveFields same.names,
    unplaced_resolveFields ((same.perm.map (·.name)).nodup_iff.1 same.names)]
  refine (List.Perm.of_eq (List.map_congr_left fun f member => ?_)).trans (same.perm.map _)
  exact Field.resolve_congr (fun name used => (known f member name used).1) ..

/-- The default of a field is checked with the enumerations that the field refers to. -/
theorem checkDefault_congr {f : Field} (known : ∀ name ∈ f.shape.names, r.enum? name = r'.enum? name)
    (owner : String) (compatible : Bool) :
    r.checkDefault owner compatible f = r'.checkDefault owner compatible f := by
  have ordinal : r.checkOrdinal owner f = r'.checkOrdinal owner f := by
    unfold checkOrdinal
    split
    · rename_i shape
      rw [shape] at known
      rw [known _ (List.mem_singleton.2 rfl)]
    · rfl
  unfold checkDefault
  rw [ordinal]

/-- Whether a struct is declared in two registries with the same fields, which refer to the same
types. -/
structure Redeclared (config : Config) (name : String) (r r' : Registry) (entry entry' : StructEntry)
    (chain chain' : List StructDecl) : Prop where
  id : entry.id = entry'.id
  here : r.chain name entry.decl = .ok chain
  there : r'.chain name entry'.decl = .ok chain'
  same : Redistributed chain chain'
  known : ∀ f ∈ declaredFields chain, r.KnowAlike r' config.compatible f

namespace Redeclared

variable {name : String} {entry entry' : StructEntry} {chain chain' : List StructDecl}

/-- The fields pass the checks in both registries. -/
theorem checkFields (redeclared : Redeclared config name r r' entry entry' chain chain')
    (checked : r.checkFields name config.compatible []
      (resolveFields (r.lookup config.compatible) config.trackRef chain) = .ok ()) :
    Rearranged (resolveFields (r.lookup config.compatible) config.trackRef chain)
        (resolveFields (r'.lookup config.compatible) config.trackRef chain') ∧
      r'.checkFields name config.compatible []
        (resolveFields (r'.lookup config.compatible) config.trackRef chain') = .ok () := by
  obtain ⟨passed, tags, -⟩ := checkFields_eq_ok_iff.1 checked
  have same := rearranged_resolveFields config redeclared.same redeclared.known tags
  refine ⟨same, checkFields_eq_ok_iff.2 ⟨fun f' member' => ?_, ?_, fun _ _ => List.not_mem_nil⟩⟩
  · obtain ⟨f, member, placed⟩ :=
      List.mem_map.1 (same.perm.mem_iff.2 (List.mem_map_of_mem (f := Field.unplaced) member'))
    obtain ⟨d, declared, shape⟩ := declared_of_resolved member
    have shape' : f'.shape = d.shape := by
      rw [← shape]
      exact (congrArg (·.shape) placed).symm
    have default : r.checkDefault name config.compatible f' =
        r.checkDefault name config.compatible f :=
      (congrArg (fun f => r.checkDefault name config.compatible f) placed).symm
    have known : ∀ type ∈ f'.shape.names, r'.enum? type = r.enum? type := fun type used =>
      (redeclared.known d declared type (shape' ▸ used)).2.symm
    rw [checkDefault_congr known, default, passed f member]
  · have tagged : ∀ fields : List Field, fields.filterMap (·.tag) =
        (fields.map Field.unplaced).filterMap (·.tag) := fun fields => by
      rw [List.filterMap_map]
      rfl
    rw [tagged]
    rw [tagged] at tags
    exact (same.perm.filterMap _).nodup_iff.1 tags

/-- A struct that is built is built in both registries, with one layout. -/
theorem build (redeclared : Redeclared config name r r' entry entry' chain chain') {s : StructType}
    (built : r.build config name entry = .ok s) :
    ∃ t, r'.build config name entry' = .ok t ∧ s.SameLayout t ∧
      fingerprint (resolveFields (r.lookup config.compatible) config.trackRef chain) =
        fingerprint (resolveFields (r'.lookup config.compatible) config.trackRef chain') := by
  obtain ⟨found, here, built⟩ := bind_eq_ok_iff.1 built
  rw [redeclared.here] at here
  cases here
  obtain ⟨_, declared, built⟩ := bind_eq_ok_iff.1 built
  obtain ⟨_, checked, built⟩ := bind_eq_ok_iff.1 built
  have declared' : (declaredFields chain').forM (checkDecl name) = .ok () :=
    forM_eq_ok_iff.2 fun f member =>
      forM_eq_ok_iff.1 declared f (redeclared.same.perm.mem_iff.2 member)
  obtain ⟨same, checked'⟩ := redeclared.checkFields checked
  obtain ⟨t, made, layout⟩ := StructType.build_rearranged same built entry'.decl.isAbstract
  refine ⟨t, ?_, layout, same.fingerprint_eq⟩
  exact bind_eq_ok_iff.2 ⟨chain', redeclared.there, bind_eq_ok_iff.2 ⟨(), declared',
    bind_eq_ok_iff.2 ⟨(), checked', redeclared.id ▸ made⟩⟩⟩

end Redeclared

/-- The order of declaration settles nothing. Fields in any order are sorted into one canonical
order, which holds each of them once, group by group, and is not changed by sorting again; so a
struct whose fields are declared in another order, or by other structs of its inheritance chain, has
the same canonical fields, plan, fingerprint, version and definition. -/
theorem declaration_order_irrelevant :
    (∀ fields fields' : List Field, Rearranged fields fields' →
      (canonicalOrder fields).map Field.unplaced = (canonicalOrder fields').map Field.unplaced ∧
        (canonicalOrder fields).Perm fields ∧
        ((canonicalOrder fields).map FieldGroup.ofField =
          [.primitive, .nullablePrimitive, .internal, .list, .set, .map, .other].flatMap fun group =>
            List.replicate (fields.countP fun f => FieldGroup.ofField f = group) group) ∧
        canonicalOrder (canonicalOrder fields) = canonicalOrder fields) ∧
    ∀ (config : Config) (name : String) (r r' : Registry) (entry entry' : StructEntry)
      (chain chain' : List StructDecl), Redeclared config name r r' entry entry' chain chain' →
      ∀ s, r.build config name entry = .ok s → ∃ t, r'.build config name entry' = .ok t ∧
        s.SameLayout t ∧
        fingerprint (resolveFields (r.lookup config.compatible) config.trackRef chain) =
          fingerprint (resolveFields (r'.lookup config.compatible) config.trackRef chain') :=
  ⟨fun fields _ same => ⟨same.canonicalOrder_eq, canonicalOrder_perm fields,
    groups_canonicalOrder fields, canonicalOrder_canonicalOrder fields⟩,
    fun _ _ _ _ _ _ _ _ redeclared _ built => redeclared.build built⟩

/-- The settings under which records travel with their definitions. -/
def compatibly : Config := { Config.standard with compatible := true }

/-- A field for a number that may be null. -/
def optionalNumber (name : String) : FieldDecl :=
  { FieldDecl.ofShape name (.scalar .varint32) with nullable := true }

/-- A struct that declares both of its fields. -/
def point : StructEntry where
  decl := { naming := .ofNames "demo" "Point", parent := none, isAbstract := false
            fields := [optionalNumber "x", optionalNumber "y"] }
  id := some 1
  built := none

/-- A struct with one of the fields. -/
def axis : StructEntry where
  decl := { naming := .ofNames "demo" "Axis", parent := none, isAbstract := true
            fields := [optionalNumber "y"] }
  id := none
  built := none

/-- The struct that declares the other one. -/
def pointOnAxis : StructEntry where
  decl := { naming := .ofNames "demo" "Point", parent := some "demo.Axis", isAbstract := false
            fields := [optionalNumber "x"] }
  id := some 1
  built := none

def inOnePiece : Registry := { empty with structs := [("demo.Point", point)] }

def inTwoPieces : Registry :=
  { empty with structs := [("demo.Axis", axis), ("demo.Point", pointOnAxis)] }

theorem redeclared_point : Redeclared compatibly "demo.Point" inOnePiece inTwoPieces point pointOnAxis
    [point.decl] [axis.decl, pointOnAxis.decl] := by
  refine ⟨rfl, rfl, rfl, ⟨by decide +kernel, by decide +kernel⟩, fun f member name used => ?_⟩
  have closed : ∀ f ∈ declaredFields [point.decl], f.shape.names = [] := by decide +kernel
  rw [closed f member] at used
  cases used

/-- The fields of the first struct. -/
def pointFields : List Field := resolveFields (inOnePiece.lookup true) false [point.decl]

/-- The fields of the other struct and of the one that it extends. -/
def pointOnAxisFields : List Field :=
  resolveFields (inTwoPieces.lookup true) false [axis.decl, pointOnAxis.decl]

theorem rearranged_point : Rearranged pointFields pointOnAxisFields :=
  rearranged_resolveFields compatibly redeclared_point.same redeclared_point.known
    (by decide +kernel)

theorem build_point : ∃ s, inOnePiece.build compatibly "demo.Point" point = .ok s := by
  have text : fingerprint pointFields = "x,5,0,1;y,5,0,1;" := by
    rw [fingerprint, List.mergeSort_of_pairwise (by decide +kernel)]
    decide +kernel
  have hashed : structVersion "demo.Point" pointFields =
      .ok (fingerprintHash "x,5,0,1;y,5,0,1;") := by
    rw [structVersion, text]
    exact if_neg (by decide +kernel)
  have order : canonicalOrder pointFields = pointFields :=
    canonicalOrder_of_group .nullablePrimitive (by decide +kernel) (by decide +kernel)
  have defined : (StructType.definitionOf (some 1) "demo" "Point"
      (canonicalOrder pointFields)).encode.toOption.isSome = true := by
    rw [order]
    decide +kernel
  obtain ⟨bytes, encoded⟩ : ∃ bytes, (StructType.definitionOf (some 1) "demo" "Point"
      (canonicalOrder pointFields)).encode = .ok bytes := by
    generalize (StructType.definitionOf (some 1) "demo" "Point" _).encode = result at defined ⊢
    cases result with
    | ok bytes => exact ⟨bytes, rfl⟩
    | error e => cases defined
  exact ⟨_, bind_eq_ok_iff.2 ⟨[point.decl], rfl, bind_eq_ok_iff.2 ⟨(), rfl,
    bind_eq_ok_iff.2 ⟨(), rfl, bind_eq_ok_iff.2 ⟨_, hashed,
      bind_eq_ok_iff.2 ⟨_, map_eq_ok_iff.2 ⟨bytes, encoded, rfl⟩, rfl⟩⟩⟩⟩⟩⟩

/-- A struct that declares two fields, and one that leaves the second of them to the struct that it
extends, come to one layout. -/
theorem declaration_order_irrelevant_point :
    (canonicalOrder pointFields).map Field.unplaced =
        (canonicalOrder pointOnAxisFields).map Field.unplaced ∧
      ∃ s t, inOnePiece.build compatibly "demo.Point" point = .ok s ∧
        inTwoPieces.build compatibly "demo.Point" pointOnAxis = .ok t ∧ s.SameLayout t := by
  obtain ⟨order, -⟩ := declaration_order_irrelevant.1 _ _ rearranged_point
  obtain ⟨s, built⟩ := build_point
  obtain ⟨t, built', layout, -⟩ :=
    declaration_order_irrelevant.2 _ _ _ _ _ _ _ _ redeclared_point s built
  exact ⟨order, s, t, built, built', layout⟩

end Registry

end Graphwire
