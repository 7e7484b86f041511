import Graphwire.Proofs.Registrations

/-!
# Owners of identifiers

The table of owners is kept apart from the registered types, and is changed before a type joins and
after it was refused. In what can be reached it says of every identifier just which type has it, so
looking up an identifier finds that type. A type without an explicit identifier gets the hash of its
name or alias if no type has it, and none otherwise; no registration takes an identifier away.
-/

namespace Graphwire

set_option autoImplicit false

/-- The name of a registered type, and its identifier. -/
def NamedType.entry : NamedType → String × Option Nat
  | .struct s => (s.qualifiedName, s.id)
  | .enum e => (e.qualifiedName, e.id)

namespace Registry

variable {r : Registry} {config : Config} {id : Option Nat} {d : Declaration}

/-! ## Owners and types -/

/-- Whether an identifier is owned by a type just if the type has it. -/
theorem Sound.owner?_iff (sound : r.Sound) (claimed : r.Claimed) {n : Nat} {name : String} :
    r.ids.owner? n = some name ↔ (name, some n) ∈ r.types :=
  ⟨claimed n name, sound.owned name n⟩

/-- A name of a registered type belongs to it alone. -/
theorem Sound.eq_of_mem_types (sound : r.Sound) {name : String} {id id' : Option Nat}
    (member : (name, id) ∈ r.types) (member' : (name, id') ∈ r.types) : id = id' :=
  Option.some.inj (((lookup_eq_some_iff_mem sound.distinct).2 member).symm.trans
    ((lookup_eq_some_iff_mem sound.distinct).2 member'))

/-- Every type that is registered can be found under its name. -/
theorem Sound.named?_of_mem_types (sound : r.Sound) (built : r.rebuild config = .ok r)
    {x : String × Option Nat} (member : x ∈ r.types) :
    ∃ t, r.named? x.1 = some t ∧ t.entry = x := by
  have distinct := sound.distinct
  rw [types, List.map_append, List.map_map, List.map_map] at distinct
  obtain ⟨structs, enums, -⟩ := List.nodup_append.1 distinct
  rcases mem_types_iff.1 member with ⟨e, listed, rfl⟩ | ⟨e, listed, rfl⟩
  · have declared : r.declared? e.1 = some (e.2.decl, e.2.id) := by
      rw [declared?_eq, (lookup_eq_some_iff_mem structs).2 listed]
      rfl
    obtain ⟨s, made⟩ := exists_rebuild_iff.1 ⟨r, built⟩ (e.1, e.2.decl, e.2.id)
      (List.mem_map_of_mem (f := fun e => (e.1, e.2.decl, e.2.id)) listed)
    have found : r.struct? e.1 = some s := by
      rw [struct?_rebuild built, declared, Option.bind_some, made]
      rfl
    have shape := builds_built config r _ _ s made
    exact ⟨.struct s, named?_eq_struct_iff.2 found, Prod.ext shape.qualifiedName shape.ident⟩
  · have found : r.enum? e.1 = some e.2 := (lookup_eq_some_iff_mem enums).2 listed
    exact ⟨.enum e.2, sound.named?_of_enum? found,
      Prod.ext (sound.enumName found).qualifiedName rfl⟩

/-- Whether the table of owners tells which registered type has an identifier: none has that of another
one, and looking an identifier up finds the type. -/
structure OneOwner (r : Registry) : Prop where
  owner : ∀ id name, r.ids.owner? id = some name ↔ (name, some id) ∈ r.types
  apart : ∀ id name name', (name, some id) ∈ r.types → (name', some id) ∈ r.types → name = name'
  found : ∀ id name, (name, some id) ∈ r.types →
    ∃ t, r.byId? id = some t ∧ r.named? name = some t ∧ t.entry = (name, some id)
  registered : ∀ id t, r.byId? id = some t → t.entry ∈ r.types ∧ t.entry.2 = some id

/-! ## Registrations -/

/-- A registration that succeeds adds one type, of a new name, and takes no identifier away. -/
theorem types_register (done : (r.register config id d).1 = .ok ()) :
    (∀ x, x ∈ (r.register config id d).2.types ↔ x = (d.qualifiedName, id) ∨ x ∈ r.types) ∧
      ∀ n owner, r.ids.owner? n = some owner →
        (r.register config id d).2.ids.owner? n = some owner := by
  obtain ⟨-, -, r', claimed, built⟩ := register_ok done
  obtain ⟨types, ids, -⟩ := rebuild_eq_ok built
  obtain ⟨structs, enums, -, kept⟩ := claim_eq_ok claimed
  have before : r'.types = r.types := by simp only [Registry.types, structs, enums]
  refine ⟨fun x => ?_, fun n owner owned => ?_⟩
  · rw [types, types_join.mem_iff, List.mem_cons, before]
  · rw [ids, ids_join]
    exact kept n owner owned

end Registry

/-- Without an explicit identifier a type gets its hashed one just if nothing owns that. -/
theorem IdTable.assign_cases {t : IdTable} {naming : Naming} (implicit : naming.explicitId = none) :
    ((t.assign naming).1 = .generated (hashedId naming.idSource) naming.idSource ∧
        t.owner? (hashedId naming.idSource) = none) ∨
      (t.assign naming).1 = .byName ∧ ∃ owner, t.owner? (hashedId naming.idSource) = some owner := by
  cases owner : t.owner? (hashedId naming.idSource) with
  | none =>
    refine .inl ⟨?_, rfl⟩
    simp only [assign, implicit, owner, Option.isSome_none, Bool.false_eq_true, if_false]
  | some holder =>
    refine .inr ⟨?_, holder, rfl⟩
    simp only [assign, implicit, owner, Option.isSome_some, if_true]

namespace Instance

variable {i : Instance} {d : Declaration}

theorem settle_fst {α : Type} (i : Instance) (outcome : Registry.Outcome α) :
    (i.settle outcome).1 = outcome.1 := by
  obtain ⟨_ | _, registry⟩ := outcome <;> rfl

/-- A type that is registered under the identifier that its naming gives has this and no other one. -/
theorem Reachable.types_registerAuto (reachable : i.Reachable)
    (implicit : d.naming.explicitId = none) {a : IdAssignment} (done : (i.registerAuto d).1 = .ok a) :
    a = (i.registry.ids.assign d.naming).1 ∧
      (∀ id, (d.qualifiedName, id) ∈ (i.registerAuto d).2.registry.types ↔ id = a.id?) ∧
      ∀ n owner, i.registry.ids.owner? n = some owner →
        (i.registerAuto d).2.registry.ids.owner? n = some owner := by
  have sound : (i.registerAuto d).2.registry.Sound := by
    cases d with
    | struct decl => exact (reachable.perform (.registerStructAuto decl)).sound.registry
    | enum decl => exact (reachable.perform (.registerEnumAuto decl)).sound.registry
  rw [registerAuto_eq] at done sound ⊢
  rw [settle_fst] at done
  rw [(i.settle_registry _).1] at sound ⊢
  obtain ⟨assigned, ids, owners, joined, same⟩ := Registry.registerAuto_ok done
  obtain ⟨types, kept⟩ := Registry.types_register joined
  rw [same] at sound ⊢
  have new := (types (d.qualifiedName, a.id?)).2 (.inl rfl)
  refine ⟨assigned, fun id => ⟨fun member => sound.eq_of_mem_types member new, fun same => same ▸ new⟩,
    fun n owner owned => kept n owner ?_⟩
  rcases owners with rfl | ⟨-, rfl⟩
  · exact owned
  · exact (Registry.assign_spec implicit).1 n owner owned

/-- The owners of a reachable instance are its registered types. -/
theorem Reachable.oneOwner (reachable : i.Reachable) : i.registry.OneOwner := by
  have sound := reachable.sound.registry
  have claimed := reachable.consistent.claimed
  obtain ⟨config, built⟩ := reachable.assembled.somehow
  have found {name : String} {id : Nat} (member : (name, some id) ∈ i.registry.types) :
      ∃ t, i.registry.byId? id = some t ∧ i.registry.named? name = some t ∧
        t.entry = (name, some id) := by
    obtain ⟨t, named, entry⟩ := sound.named?_of_mem_types built member
    exact ⟨t, (sound.byId? member).trans named, named, entry⟩
  refine ⟨fun id name => sound.owner?_iff claimed, fun id name name' member member' => ?_,
    fun id name => found, fun id t same => ?_⟩
  · exact Option.some.inj ((sound.owned name id member).symm.trans (sound.owned name' id member'))
  · obtain ⟨name, owner, -⟩ := Option.bind_eq_some_iff.1 same
    have member := claimed id name owner
    obtain ⟨t', same', -, entry⟩ := found member
    cases same.symm.trans same'
    rw [entry]
    exact ⟨member, rfl⟩

/-- Identifiers have one owner. No two registered types share one, and looking an identifier up finds
the type that has it, if there is one. A type that is registered without an explicit identifier gets
the hash of its name, in which an alias counts, just if no type has that; if one does, it keeps it,
and the new type has none. -/
theorem Reachable.identifiers_owned (reachable : i.Reachable) :
    i.registry.OneOwner ∧
    ∀ d : Declaration, d.naming.explicitId = none → ∀ a, (i.registerAuto d).1 = .ok a →
      (a = .generated (hashedId d.naming.idSource) d.naming.idSource ∧
        i.registry.ids.owner? (hashedId d.naming.idSource) = none ∧
        ∀ id, (d.qualifiedName, id) ∈ (i.registerAuto d).2.registry.types ↔
          id = some (hashedId d.naming.idSource)) ∨
      a = .byName ∧
        (∀ id, (d.qualifiedName, id) ∈ (i.registerAuto d).2.registry.types ↔ id = none) ∧
        ∃ owner, i.registry.ids.owner? (hashedId d.naming.idSource) = some owner ∧
          (i.registerAuto d).2.registry.ids.owner? (hashedId d.naming.idSource) = some owner := by
  refine ⟨reachable.oneOwner, fun d implicit a done => ?_⟩
  obtain ⟨assigned, types, kept⟩ := reachable.types_registerAuto implicit done
  rcases IdTable.assign_cases implicit with ⟨generated, free⟩ | ⟨byName, owner, owned⟩
  · have same := assigned.trans generated
    rw [same] at types
    exact .inl ⟨same, free, types⟩
  · have same := assigned.trans byName
    rw [same] at types
    exact .inr ⟨same, types, owner, owned, kept _ owner owned⟩

/-- A struct without fields. -/
def fieldless (typeName : String) (typeAlias : Option String) : StructDecl :=
  ⟨⟨"demo", none, typeName, typeAlias, none⟩, none, false, []⟩

/-- An instance that knows a struct under the hash of its name. -/
def knowingPart : Instance := (fresh.registerAuto (.struct (fieldless "Part" none))).2

/-- A struct whose alias is the name of another one is registered by name. -/
theorem identifiers_owned_alias :
    knowingPart.Reachable ∧
      (knowingPart.registerAuto (.struct (fieldless "Piece" (some "Part")))).1 = .ok .byName ∧
      knowingPart.registry.OneOwner ∧
      ∃ owner, knowingPart.registry.ids.owner? (hashedId "demo.Part") = some owner ∧
        (knowingPart.registerAuto (.struct (fieldless "Piece" (some "Part")))).2.registry.ids.owner?
          (hashedId "demo.Part") = some owner := by
  have reachable : knowingPart.Reachable := ⟨[.registerStructAuto (fieldless "Part" none)], rfl⟩
  have done : (knowingPart.registerAuto (.struct (fieldless "Piece" (some "Part")))).1 = .ok .byName := by
    decide +kernel
  have implicit : (Declaration.struct (fieldless "Piece" (some "Part"))).naming.explicitId = none := rfl
  obtain ⟨owners, auto⟩ := reachable.identifiers_owned
  rcases auto _ implicit _ done with ⟨generated, -⟩ | ⟨-, -, kept⟩
  · cases generated
  · exact ⟨reachable, done, owners, kept⟩

end Instance

end Graphwire
