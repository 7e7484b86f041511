import Graphwire.Proofs.DroppedFields
import Graphwire.Proofs.Owners
import Graphwire.Proofs.Sorting

/-!
# Types that are made up

An instance without types makes up a struct for each type of records that it meets. The fields of the
struct are those of the record in the order of their names. Each of them may hold anything and may be
null, and is told by its name.
-/

namespace Graphwire

set_option autoImplicit false

/-! ## Made-up structs -/

namespace Registry

variable {r : Registry} {config : Config} {record : Record} {s : StructType}

/-- A field of a struct that is made up is resolved from a declaration of its name alone. -/
theorem resolved_adhocStruct (h : r.adhocStruct config record = .ok s) {f : Field}
    (member : f ∈ s.fields) : ∃ declaring index,
      f = Field.resolve (r.lookup config.compatible) config.trackRef declaring index
        { FieldDecl.ofShape f.name .dynamic with nullable := true } := by
  rw [(StructType.fields_of_build h).1] at member
  obtain ⟨i, lt, rfl⟩ := List.mem_mapIdx.1 ((canonicalOrder_perm _).mem_iff.1 member)
  have declared := mem_flattenFields (List.getElem_mem lt)
  generalize (flattenFields _)[i] = x at declared ⊢
  obtain ⟨decl, only, declared⟩ := List.mem_flatMap.1 declared
  cases List.mem_singleton.1 only
  obtain ⟨name, -, same⟩ := List.mem_map.1 declared
  obtain ⟨_, declaring⟩ := x
  dsimp only at same
  subst same
  exact ⟨declaring, i, rfl⟩

/-- A field of a struct that is made up is written after a marker for null and its type. -/
theorem written_adhocStruct (h : r.adhocStruct config record = .ok s) {f : Field}
    (member : f ∈ s.fields) :
    f.refMode = .nullOnly ∧ (∀ compatible, f.hasTypeInfo compatible = true) ∧ f.shape = .dynamic := by
  obtain ⟨declaring, index, same⟩ := resolved_adhocStruct h member
  rw [same]
  exact ⟨rfl, fun _ => rfl, rfl⟩

/-- A peer that does not have a struct that is made up reads its fields as they were written, each under
its own name. -/
theorem peerField_adhocStruct (h : r.adhocStruct config record = .ok s) {f : Field}
    (member : f ∈ s.fields) : PeerField.ofEntry none (.ofField f) none =
      { own := none, name := f.name, shape := .dynamic, nullable := true, tracked := false,
        typed := true } := by
  obtain ⟨declaring, index, same⟩ := resolved_adhocStruct h member
  rw [same]
  rfl

end Registry

/-- Fields that all are of the last group stand in the order of their keys. -/
theorem canonicalOrder_of_other {fields : List Field}
    (other : ∀ f ∈ fields, FieldGroup.ofField f = .other) :
    canonicalOrder fields = fields.mergeSort Field.precedes := by
  have none : ∀ group, group ≠ .other → groupFields group fields = [] := by
    intro group ne
    have empty : fields.filter (fun f => FieldGroup.ofField f = group) = [] :=
      List.filter_eq_nil_iff.2 fun f member => by simpa [other f member] using ne.symm
    rw [groupFields, empty, List.mergeSort_nil]
  have all : fields.filter (fun f => FieldGroup.ofField f = .other) = fields :=
    List.filter_eq_self.2 fun f member => decide_eq_true (other f member)
  have last : groupFields .other fields = fields.mergeSort Field.precedes := by
    rw [groupFields, all]
    rfl
  simp [canonicalOrder, FieldGroup.all, none, last]

/-- The fields of a struct that is made up stand in the order of their names, as those of the record. -/
theorem Registry.names_adhocStruct {r : Registry} {config : Config} {record : Record} {s : StructType}
    (h : r.adhocStruct config record = .ok s) : s.fields.map (·.name) = record.fields.names := by
  have built := StructType.build_built h
  have key : ∀ f ∈ s.fields, f.tag = none ∧ f.key = f.name := by
    intro f member
    obtain ⟨declaring, index, same⟩ := resolved_adhocStruct h member
    rw [same]
    exact ⟨rfl, rfl⟩
  have sorted : s.fields.Pairwise fun a b => a.precedes b = true := by
    have fields := (StructType.fields_of_build h).1
    have other : ∀ f ∈ s.fields, FieldGroup.ofField f = .other := by
      intro f member
      obtain ⟨declaring, index, same⟩ := resolved_adhocStruct h member
      rw [same]
      rfl
    rw [fields] at other ⊢
    rw [canonicalOrder_of_other fun f member => other f ((canonicalOrder_perm _).mem_iff.2 member)]
    exact List.pairwise_mergeSort Field.precedes_trans Field.precedes_total _
  have ordered : (s.fields.map (·.name)).Pairwise (· < ·) := by
    have apart := List.pairwise_map.1 built.names
    refine List.pairwise_map.2 ((sorted.and apart).imp_of_mem fun {a b} ha hb both => ?_)
    obtain ⟨noTag, keyA⟩ := key a ha
    obtain ⟨noTag', keyB⟩ := key b hb
    have le : a.name ≤ b.name := by
      have precedes := both.1
      simpa [Field.precedes, noTag, noTag', keyA, keyB] using precedes
    exact Decidable.byContradiction fun not =>
      both.2 (String.le_antisymm le (String.not_lt.1 not))
  exact ordered.eq_of_mem_iff (List.pairwise_map.2 record.fields.sorted) fun name =>
    mem_names_adhocStruct h

/-- A name that was split at its last dot and is put together again. It is the same name, unless its one
dot stands in front. -/
def rejoined (name : String) : String := qualify (splitQualified name).1 (splitQualified name).2

/-- A struct that was made up is told, under the name that its parts make up, to a reader that has no struct
of that name. -/
theorem Registry.peer_adhocStruct {r R : Registry} {config : Config} {record : Record} {s : StructType}
    (made : r.adhocStruct config record = .ok s)
    (unknown : R.struct? (rejoined record.typeName) = none) :
    (R.peer s).own = none ∧ (R.peer s).typeName = rejoined record.typeName ∧
      (R.peer s).fields = s.fields.map fun f => .ofEntry none (.ofField f) none := by
  have built := StructType.build_built made
  have whole : qualify s.package s.typeName = rejoined record.typeName := by
    rw [rejoined, built.parts]
  have absent : R.structOf? (s.told (s.header?.getD 0)).identity = none :=
    (structOf?_told_parts built.ident whole _).trans unknown
  obtain ⟨own, -, fields⟩ := peerOf_unknown absent
  have typeName := typeName_peerOf_unknown absent
  rw [StructType.identity, built.ident] at typeName
  exact ⟨own, typeName.trans whole, fields⟩

/-! ## Instances without types -/

/-- Whether an environment makes up the types of all records: it knows none, need not know them, and
tells of them by definitions. -/
structure Environment.MakesUp (env : Environment) : Prop where
  compatible : env.config.compatible = true
  lenient : env.config.requireRegistration = false
  untracked : env.config.trackRef = false
  strategy : env.config.strategy = .interpreted
  structs : env.registry.structs = []
  enums : env.registry.enums = []

namespace Environment

/-- The type that a value is written with where every type is made up. -/
inductive Improvises (env : Environment) (g : Graph) : Value → WireType → Prop where
  | record {v : Value} {r : Record} {s : StructType} (isRecord : g.asRecord? v = some r)
      (made : env.registry.adhocStruct env.config r = .ok s) : Improvises env g v (.struct s false)
  | enum (name : String) (ordinal : Nat) : Improvises env g (.enum name ordinal) (.enum name none)
  | builtin {v : Value} {t : TypeId} (noRecord : g.asRecord? v = none)
      (inferred : g.inferType? v = some t) : Improvises env g v (.builtin t)

namespace MakesUp

variable {env : Environment} (makesUp : env.MakesUp)

include makesUp

theorem struct?_eq_none (name : String) : env.registry.struct? name = none := by
  rw [Registry.struct?, makesUp.structs]
  rfl

theorem enum?_eq_none (name : String) : env.registry.enum? name = none := by
  rw [Registry.enum?, makesUp.enums]
  rfl

theorem named?_eq_none (name : String) : env.registry.named? name = none := by
  simp [Registry.named?, makesUp.struct?_eq_none, makesUp.enum?_eq_none]

theorem hasNoStruct (s : StructType) : ¬env.registry.HasStruct s := by
  rintro ⟨name, found⟩
  rw [makesUp.struct?_eq_none] at found
  cases found

/-- What an environment without types tells of is what it made up. -/
theorem describing (sound : env.registry.Sound) : env.Describing where
  compatible := makesUp.compatible
  strategy := makesUp.strategy
  sound := sound
  built e member := by
    rw [makesUp.structs] at member
    cases member
  described s known := absurd known (makesUp.hasNoStruct s)

end MakesUp

end Environment

/-! ## Instances -/

namespace Registry

variable {r : Registry} {config : Config}

/-- A registration changes nothing, or there is a type then. -/
theorem Consistent.register_adds (consistent : r.Consistent config) (id : Option Nat) (d : Declaration) :
    (r.register config id d).2 = r ∨ (r.register config id d).2.types ≠ [] := by
  cases outcome : (r.register config id d).1 with
  | error e => exact .inl (register_error_eq consistent.settled consistent.claimed outcome)
  | ok => exact .inr (List.ne_nil_of_mem (((types_register outcome).1 _).2 (.inl rfl)))

theorem Consistent.registerAuto_adds (consistent : r.Consistent config) (d : Declaration) :
    (r.registerAuto d.naming fun r id => r.register config id d).2 = r ∨
      (r.registerAuto d.naming fun r id => r.register config id d).2.types ≠ [] := by
  cases outcome : (r.registerAuto d.naming fun r id => r.register config id d).1 with
  | error e => exact .inl (registerAuto_error_eq consistent.settled consistent.claimed outcome)
  | ok a =>
    obtain ⟨-, ids, -, done, same⟩ := registerAuto_ok outcome
    rw [same]
    exact .inr (List.ne_nil_of_mem (((types_register done).1 _).2 (.inl rfl)))

end Registry

namespace Instance

/-- Whether an instance was set up to make up the types of all records: in compatible mode and without
types, references and limits of sizes. -/
structure MakesUp (i : Instance) : Prop where
  reachable : i.Reachable
  types : i.registry.types = []
  compatible : i.config.compatible = true
  lenient : i.config.requireRegistration = false
  untracked : i.config.trackRef = false
  unlimited : i.config.limits = .unlimited

/-- Settings are not at fault where there are no types that they must fit. -/
theorem fault_reconfigure {i : Instance} {config : Config}
    (types : (i.reconfigure config).registry.types = []) : (i.reconfigure config).fault = none := by
  unfold reconfigure at types ⊢
  cases built : i.registry.rebuild config with
  | ok registry => rfl
  | error e =>
    rw [built] at types
    have structs : i.registry.structs = [] := List.map_eq_nil_iff.1 (List.append_eq_nil_iff.1 types).1
    rw [Registry.rebuild, structs] at built
    cases built

theorem fault_settle {α : Type} {i : Instance} (sane : i.registry.types = [] → i.fault = none)
    {outcome : Registry.Outcome α} (cases : outcome.2 = i.registry ∨ outcome.2.types ≠ [])
    (types : (i.settle outcome).2.registry.types = []) : (i.settle outcome).2.fault = none := by
  obtain ⟨registry, -, fault⟩ := i.settle_registry outcome
  rw [registry] at types
  rw [fault]
  rcases cases with same | some
  · exact sane (same ▸ types)
  · exact absurd types some

theorem Reachable.fault_eq_none {i : Instance} (reachable : i.Reachable) (types : i.registry.types = []) :
    i.fault = none := by
  refine (reachable.induct (P := fun i => i.registry.Consistent i.config ∧
    (i.registry.types = [] → i.fault = none)) ⟨Reachable.consistent ⟨[], rfl⟩, fun _ => rfl⟩ ?_).2 types
  rintro i action ⟨consistent, sane⟩
  refine ⟨consistent_perform consistent action, ?_⟩
  cases action with
  | setCompatible | setTrackRef => exact fault_reconfigure
  | setMaxDepth | setLimits | setRequireRegistration | setStrategy => exact sane
  | registerStruct id decl => exact fault_settle sane (consistent.register_adds id (.struct decl))
  | registerEnum id decl => exact fault_settle sane (consistent.register_adds id (.enum decl))
  | registerStructAuto decl => exact fault_settle sane (consistent.registerAuto_adds (.struct decl))
  | registerEnumAuto decl => exact fault_settle sane (consistent.registerAuto_adds (.enum decl))
  | deserialize bytes =>
    obtain ⟨cache, same⟩ := i.deserialize_instance bytes
    exact (congrArg (fun j : Instance => j.registry.types = [] → j.fault = none) same).mpr sane

namespace MakesUp

variable {i : Instance} (makesUp : i.MakesUp)

include makesUp

theorem sane : i.fault = none := makesUp.reachable.fault_eq_none makesUp.types

theorem rootMode_eq : i.rootMode = .nullOnly := by
  rw [rootMode, makesUp.untracked]
  rfl

/-- Walking records field by field, an instance without types makes up all types. -/
theorem environment : (i.setStrategy .interpreted).environment.MakesUp where
  compatible := makesUp.compatible
  lenient := makesUp.lenient
  untracked := makesUp.untracked
  strategy := rfl
  structs := List.map_eq_nil_iff.1 (List.append_eq_nil_iff.1 makesUp.types).1
  enums := List.map_eq_nil_iff.1 (List.append_eq_nil_iff.1 makesUp.types).2

end MakesUp

end Instance

end Graphwire
