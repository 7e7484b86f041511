import Graphwire.Proofs.Following
import Graphwire.Proofs.Levels
import Graphwire.Proofs.Positions
import Mathlib.Data.List.Sort

/-!
# Types that are sent

In compatible mode a value of a named type carries its type. A record is sent with the definition of its
struct, which is made up from its fields if the type is not registered. A reader makes of the definition
what it makes of the struct, whatever of its fields it knows; a member of an enumeration it reads as a
member of some enumeration. All other types are their codes.
-/

namespace Graphwire

set_option autoImplicit false

/-! ## Structs that were made up -/

namespace Registry

variable {r : Registry} {config : Config} {record : Record} {s : StructType}

/-- The fields of a struct that is made up may hold anything. -/
theorem field_of_adhocStruct (h : r.adhocStruct config record = .ok s) {f : Field}
    (member : f ∈ s.fields) : f.name ∈ record.fields.names ∧ f.shape = .dynamic ∧ f.tag = none ∧
      f.Described (r.lookup config.compatible) := by
  rw [(StructType.fields_of_build h).1] at member
  obtain ⟨i, lt, rfl⟩ := List.mem_mapIdx.1 ((canonicalOrder_perm _).mem_iff.1 member)
  have declared := mem_flattenFields (List.getElem_mem lt)
  generalize (flattenFields _)[i] = x at declared ⊢
  obtain ⟨decl, only, declared⟩ := List.mem_flatMap.1 declared
  cases List.mem_singleton.1 only
  obtain ⟨name, named, same⟩ := List.mem_map.1 declared
  obtain ⟨_, declaring⟩ := x
  dsimp only at same
  subst same
  exact ⟨named, rfl, rfl, Field.described_resolve nofun rfl ⟨none, rfl⟩⟩

/-- A struct that is made up has the fields of the record, and no others. -/
theorem mem_names_adhocStruct (h : r.adhocStruct config record = .ok s) {name : String} :
    name ∈ s.fields.map (·.name) ↔ name ∈ record.fields.names := by
  refine ⟨fun member => ?_, name_mem_adhocStruct h⟩
  obtain ⟨f, declared, rfl⟩ := List.mem_map.1 member
  exact (field_of_adhocStruct h declared).1

/-- Peers can be told of a struct that is made up. -/
theorem described_adhocStruct (h : r.adhocStruct config record = .ok s)
    (compatible : config.compatible = true) : s.Described true := by
  refine ⟨⟨_, r.registered_lookup _, fun f member => (field_of_adhocStruct h member).2.2.2⟩, ?_,
    fun _ => ?_⟩
  · have untagged : s.fields.filterMap (·.tag) = [] :=
      List.filterMap_eq_nil_iff.2 fun f member => (field_of_adhocStruct h member).2.2.1
    rw [untagged]
    exact List.nodup_nil
  · unfold adhocStruct at h
    rw [compatible] at h
    exact StructType.definition_of_build h

theorem plain_adhocStruct (h : r.adhocStruct config record = .ok s) : s.Plain := by
  intro f member _
  rw [(field_of_adhocStruct h member).2.1]
  rfl

/-- What is made up for a record depends on the names of its fields alone. -/
theorem adhocStruct_congr {record' : Record} (name : record'.typeName = record.typeName)
    (names : record'.fields.names = record.fields.names) :
    r.adhocStruct config record' = r.adhocStruct config record := by
  simp only [adhocStruct, name, names]

end Registry

/-- Records that have the same names have them in the same order. -/
theorem FieldTable.names_eq_of_mem_iff {t t' : FieldTable}
    (same : ∀ name, name ∈ t.names ↔ name ∈ t'.names) : t.names = t'.names :=
  (List.pairwise_map.2 t.sorted).eq_of_mem_iff (List.pairwise_map.2 t'.sorted) same

/-! ## Environments -/

/-- An environment in compatible mode, which tells of structs by definitions, and whose records are walked
field by field. -/
structure Environment.Describing (env : Environment) : Prop where
  compatible : env.config.compatible = true
  strategy : env.config.strategy = .interpreted
  sound : env.registry.Sound
  built : env.registry.BuiltFor true env.config.trackRef
  described : ∀ s, env.registry.HasStruct s → s.Described true

/-- An environment in compatible mode none of whose types has a container that is dynamic. -/
structure Environment.Evolving (env : Environment) : Prop extends env.Describing where
  plain : ∀ s, env.registry.HasStruct s → s.Plain

/-- What is known of a struct in compatible mode, registered or made up. -/
structure StructType.Sendable (s : StructType) : Prop where
  built : ∃ trackRef name id, s.Built true trackRef name id
  described : s.Described true

/-- What is known of a struct none of whose containers is dynamic. -/
structure StructType.Evolves (s : StructType) : Prop extends s.Sendable where
  plain : s.Plain

namespace StructType.Sendable

variable {s : StructType} (sendable : s.Sendable)

include sendable

theorem isCompatible : s.isCompatible = true := by
  obtain ⟨_, _, _, built⟩ := sendable.built
  exact built.kind_eq

theorem kind : s.kind = .compatibleStruct ∨ s.kind = .namedCompatibleStruct := by
  obtain ⟨_, _, id, built⟩ := sendable.built
  rw [built.kind]
  cases id
  · exact .inr rfl
  · exact .inl rfl

theorem names : (s.fields.map (·.name)).Nodup := by
  obtain ⟨_, _, _, built⟩ := sendable.built
  exact built.names

theorem keys : DistinctKeys s.fields := distinctKeys_of_nodup sendable.names sendable.described.tags

end StructType.Sendable

/-- Whether a struct is sent with records of a graph. -/
def Environment.Sends (env : Environment) (g : Graph) (s : StructType) : Prop :=
  ∃ h r, g.node h = .record r ∧ env.structFor? r = some s

namespace Environment

variable {env : Environment} {g : Graph} {r : Record} {s : StructType}

theorem structFor?_of_struct? (found : env.registry.struct? r.typeName = some s) :
    env.structFor? r = some s := by
  rw [structFor?, found]

theorem structFor?_of_adhocStruct (unknown : env.registry.struct? r.typeName = none)
    (made : env.registry.adhocStruct env.config r = .ok s) : env.structFor? r = some s := by
  rw [structFor?, unknown, made]
  rfl

theorem sends_of_asRecord? {v : Value} (isRecord : g.asRecord? v = some r)
    (found : env.structFor? r = some s) : env.Sends g s := by
  obtain ⟨h, -, node⟩ := Option.map_eq_some_iff.1 (Graph.nodeOf?_of_asRecord? isRecord)
  exact ⟨h, r, node, found⟩

/-- The structs that are sent with the records of a graph. -/
def sent (env : Environment) (g : Graph) : List StructType :=
  g.nodes.toList.filterMap fun
    | .record r => env.structFor? r
    | _ => none

theorem Sends.mem_sent (sends : env.Sends g s) : s ∈ env.sent g := by
  obtain ⟨h, r, node, written⟩ := sends
  unfold Graph.node at node
  cases found : g.nodes[h.index]? with
  | none =>
    rw [found] at node
    cases node
  | some n =>
    rw [found, Option.getD_some] at node
    refine List.mem_filterMap.2 ⟨n, Array.mem_toList_iff.2 (Array.mem_of_getElem? found), ?_⟩
    rw [node]
    exact written

namespace Describing

variable (describing : env.Describing)

include describing

theorem sendable (known : env.registry.HasStruct s) : s.Sendable := by
  obtain ⟨_, found⟩ := known
  exact ⟨⟨_, _, _, describing.built.built found⟩, describing.described s ⟨_, found⟩⟩

/-- A record is written as the struct that is registered under its name, or as one that is made up. -/
theorem cases_structFor? (found : env.structFor? r = some s) :
    (env.registry.struct? r.typeName = some s ∨
      env.registry.struct? r.typeName = none ∧ env.registry.adhocStruct env.config r = .ok s) ∧
      s.Sendable ∧ s.qualifiedName = r.typeName := by
  unfold structFor? at found
  split at found
  · rename_i registered
    cases found
    exact ⟨.inl registered, describing.sendable ⟨_, registered⟩,
      (describing.built.built registered).qualifiedName⟩
  · rename_i unknown
    cases made : env.registry.adhocStruct env.config r with
    | error e =>
      rw [made] at found
      cases found
    | ok t =>
      rw [made] at found
      cases found
      have built : s.Built env.config.compatible env.config.trackRef r.typeName none :=
        StructType.build_built made
      rw [describing.compatible] at built
      exact ⟨.inr ⟨unknown, rfl⟩,
        ⟨⟨_, _, _, built⟩, Registry.described_adhocStruct made describing.compatible⟩,
        built.qualifiedName⟩

theorem sendable_of_sends (sends : env.Sends g s) : s.Sendable := by
  obtain ⟨_, _, -, found⟩ := sends
  exact (describing.cases_structFor? found).2.1

end Describing

namespace Evolving

variable (evolving : env.Evolving)

include evolving

theorem evolves (known : env.registry.HasStruct s) : s.Evolves :=
  ⟨evolving.sendable known, evolving.plain s known⟩

theorem evolves_of_structFor? (found : env.structFor? r = some s) :
    s.Evolves ∧ s.qualifiedName = r.typeName := by
  obtain ⟨known, sendable, named⟩ := evolving.cases_structFor? found
  refine ⟨⟨sendable, ?_⟩, named⟩
  rcases known with registered | ⟨-, made⟩
  · exact evolving.plain s ⟨_, registered⟩
  · exact Registry.plain_adhocStruct made

end Evolving

end Environment

/-! ## What a writer remembers -/

/-- What a writer and a reader remember alike: the nodes that have a number, each with the shape that it
was written under, and the structs that were told. -/
structure Notes where
  numbered : List (Handle × Shape)
  told : List StructType

/-- Whether a writer writes records of the name of a struct as that struct from now on. -/
def WriteState.Knows (ws : WriteState) (types : Registry) (s : StructType) : Prop :=
  types.struct? s.qualifiedName = some s ∨
    types.struct? s.qualifiedName = none ∧ ws.adhoc.lookup s.qualifiedName = some s

theorem WriteState.Knows.unique {ws : WriteState} {types : Registry} {s s' : StructType}
    (h : ws.Knows types s) (h' : ws.Knows types s') (same : s'.qualifiedName = s.qualifiedName) :
    s' = s := by
  unfold Knows at h h'
  rw [same] at h'
  rcases h with found | ⟨unknown, made⟩ <;> rcases h' with found' | ⟨unknown', made'⟩
  · exact Option.some.inj (found'.symm.trans found)
  · cases unknown'.symm.trans found
  · cases unknown.symm.trans found'
  · exact Option.some.inj (made'.symm.trans made)

/-- Whether a writer of a graph remembers what the notes say. -/
structure Noted (W : Environment) (g : Graph) (notes : Notes) (ws : WriteState) : Prop where
  seen : ws.seen.handles = notes.numbered.map (·.1)
  distinct : (notes.numbered.map (·.1)).Nodup
  sent : ws.sent = notes.told.map (·.qualifiedName)
  once : (notes.told.map (·.qualifiedName)).Nodup
  known : ∀ s ∈ notes.told, W.Sends g s ∧ ws.Knows W.registry s
  adhoc : ∀ name s, ws.adhoc.lookup name = some s →
    ∃ r : Record, r.typeName = name ∧ W.registry.adhocStruct W.config r = .ok s

theorem Noted.initial (W : Environment) (g : Graph) : Noted W g ⟨[], []⟩ .initial where
  seen := rfl
  distinct := List.nodup_nil
  sent := rfl
  once := List.nodup_nil
  known _ member := absurd member List.not_mem_nil
  adhoc _ _ found := by cases found

/-- What is told of the type of a value after other structs were told, how the value is written then, and
the structs that are told then. -/
inductive Environment.Introduces (W : Environment) (g : Graph) (told : List StructType) :
    Value → List UInt8 × WireType → List StructType → Prop where
  | record {v : Value} {r : Record} {s : StructType} (isRecord : g.asRecord? v = some r)
      (written : W.structFor? r = some s)
      (admitted : W.registry.struct? r.typeName = none → W.config.requireRegistration = false)
      (unique : ∀ s' ∈ told, s'.qualifiedName = s.qualifiedName → s' = s) :
      Introduces W g told v (s.kind.encode ++ s.mention told, .struct s false) (s.toldAfter told)
  | enum {name : String} {ordinal : Nat} {e : EnumType} (found : W.registry.enum? name = some e) :
      Introduces W g told (.enum name ordinal)
        (e.kind.encode ++ e.id.elim (Write.names e.package e.typeName) Encode.varuint32, e.wire) told
  | unknownEnum {name : String} {ordinal : Nat} (unknown : W.registry.enum? name = none)
      (lenient : W.config.requireRegistration = false) :
      Introduces W g told (.enum name ordinal)
        (TypeId.namedEnum.encode ++ Write.names (splitQualified name).1 (splitQualified name).2,
          .enum name none) told
  | builtin {v : Value} {t : TypeId} (inferred : g.inferType? v = some t) :
      Introduces W g told v (t.encode, .builtin t) told

/-- A node that is met for the first time gets the next number. -/
theorem Noted.number {W : Environment} {g : Graph} {notes : Notes} {ws : WriteState} {h : Handle}
    (noted : Noted W g notes ws) (new : h ∉ notes.numbered.map (·.1)) (shape : Shape) :
    Noted W g { notes with numbered := notes.numbered ++ [(h, shape)] }
      { ws with seen := ⟨ws.seen.handles ++ [h]⟩ } where
  seen := by rw [noted.seen, List.map_append, List.map_singleton]
  distinct := by
    rw [List.map_append, List.map_singleton, ← List.concat_eq_append]
    exact noted.distinct.concat new
  sent := noted.sent
  once := noted.once
  known := noted.known
  adhoc := noted.adhoc

namespace Write

variable {W : Environment} {g : Graph} {notes : Notes} {ws : WriteState} {v : Value} {r : Record}
  {s : StructType} (noted : Noted W g notes ws)

include noted

/-- A struct that was made up for one record is that of another one with its fields. -/
theorem known_of_made (unknown : W.registry.struct? r.typeName = none)
    (known : ws.adhoc.lookup r.typeName = some s) (size : s.fields.length = r.fields.size)
    (all : s.fields.all fun f => r.contains f.name) :
    W.structFor? r = some s ∧ ws.Knows W.registry s ∧ Noted W g notes ws := by
  obtain ⟨r', named, made⟩ := noted.adhoc _ _ known
  have built := StructType.build_built made
  have theirs : ∀ name ∈ r.fields.names, name ∈ r'.fields.names := fun name member =>
    (Registry.mem_names_adhocStruct made).1 (StructType.names_of_size built.names size all name member)
  have ours : ∀ name ∈ r'.fields.names, name ∈ r.fields.names := by
    intro name member
    obtain ⟨f, declared, rfl⟩ := List.mem_map.1 ((Registry.mem_names_adhocStruct made).2 member)
    obtain ⟨v, set⟩ := Option.isSome_iff_exists.1 (List.all_eq_true.1 all f declared)
    exact List.mem_map_of_mem (mem_of_lookup set)
  have names := FieldTable.names_eq_of_mem_iff fun name => ⟨theirs name, ours name⟩
  have made' := (Registry.adhocStruct_congr named.symm names).trans made
  have qualified : s.qualifiedName = r.typeName := built.qualifiedName.trans named
  exact ⟨Environment.structFor?_of_adhocStruct unknown made',
    .inr ⟨qualified ▸ unknown, qualified ▸ known⟩, noted⟩

/-- A struct that is made up is remembered next to those that were. -/
theorem known_of_new (unknown : W.registry.struct? r.typeName = none)
    (new : ws.adhoc.lookup r.typeName = none) (made : W.registry.adhocStruct W.config r = .ok s) :
    W.structFor? r = some s ∧
      ({ ws with adhoc := (r.typeName, s) :: ws.adhoc } : WriteState).Knows W.registry s ∧
        Noted W g notes { ws with adhoc := (r.typeName, s) :: ws.adhoc } := by
  have qualified : s.qualifiedName = r.typeName := (StructType.build_built made).qualifiedName
  refine ⟨Environment.structFor?_of_adhocStruct unknown made, .inr ⟨qualified ▸ unknown, ?_⟩,
    { noted with known := fun s' member => ?_, adhoc := fun name s' found => ?_ }⟩
  · rw [qualified, lookup_cons_ite, if_pos rfl]
  · obtain ⟨sends, knows⟩ := noted.known s' member
    refine ⟨sends, knows.imp_right fun old => ⟨old.1, ?_⟩⟩
    rw [lookup_cons_ite, if_neg fun same => ?_]
    · exact old.2
    · rw [same, new] at old
      cases old.2
  · rw [lookup_cons_ite] at found
    split at found
    · rename_i same
      cases found
      exact ⟨r, same.symm, made⟩
    · exact noted.adhoc name s' found

variable (writer : W.Describing)

include writer

/-- A record is written as the struct that is registered, or made up of its fields where that is
admitted. -/
theorem ensures_recordType_noted :
    Ensures (recordType W r) ws fun s ws' =>
      (W.registry.struct? r.typeName = none → W.config.requireRegistration = false) ∧
        W.structFor? r = some s ∧ ws'.Knows W.registry s ∧ Noted W g notes ws' := by
  have lenient (admitted : (W.config.requireRegistration || !W.config.compatible) = false) :
      W.config.requireRegistration = false := by
    rwa [writer.compatible, Bool.not_true, Bool.or_false] at admitted
  refine ensures_recordType_cases (fun s found => ?_) (fun unknown admitted s known size all => ?_)
    fun unknown admitted s new made => ?_
  · have known : ws.Knows W.registry s :=
      .inl ((writer.built.built found).qualifiedName.symm ▸ found)
    exact ⟨fun unknown => (by cases found.symm.trans unknown),
      Environment.structFor?_of_struct? found, known, noted⟩
  · exact ⟨fun _ => lenient admitted, known_of_made noted unknown known size all⟩
  · exact ⟨fun _ => lenient admitted, known_of_new noted unknown new made⟩

/-- A writer sends the definition of a struct or its number. -/
theorem ensures_definition_noted (sends : W.Sends g s) (knows : ws.Knows W.registry s) :
    Ensures (definition s) ws fun bytes ws' => bytes = s.mention notes.told ∧
      Noted W g { notes with told := s.toldAfter notes.told } ws' := by
  intro bytes ws' run
  obtain ⟨_, -, defined⟩ := (writer.sendable_of_sends sends).described.definition rfl
  rw [definition_apply (Option.isSome_iff_exists.2 ⟨_, defined⟩) noted.sent] at run
  cases run
  refine ⟨rfl, { noted with sent := rfl, once := ?_, known := fun s' member => ?_ }⟩
  · unfold StructType.toldAfter
    split
    · exact noted.once
    · rename_i fresh
      rw [List.map_append, List.map_singleton, ← List.concat_eq_append]
      exact noted.once.concat fresh
  · rcases StructType.mem_toldAfter member with old | rfl
    · exact noted.known s' old
    · exact ⟨sends, knows⟩

/-- A writer tells of the type of a value, and remembers the structs that it told. -/
theorem ensures_typeInfo_introduces :
    Ensures (typeInfo W g v) ws fun i ws' =>
      ∃ told, W.Introduces g notes.told v i told ∧ Noted W g { notes with told } ws' := by
  unfold typeInfo
  split
  · rename_i r isRecord
    refine (ensures_recordType_noted noted writer).bind ?_
    rintro s ws₁ ⟨admitted, written, knows, noted₁⟩
    have sends := Environment.sends_of_asRecord? isRecord written
    have sendable := (writer.cases_structFor? written).2.1
    have noStruct : s.kind ≠ .struct ∧ s.kind ≠ .namedStruct := by
      rcases sendable.kind with same | same <;> rw [same] <;> decide
    rw [if_neg noStruct.1, if_neg noStruct.2, sendable.isCompatible]
    refine (ensures_definition_noted noted₁ writer sends knows).bind ?_
    rintro bytes ws₂ ⟨rfl, noted₂⟩
    exact .pure ⟨_, .record isRecord written admitted fun s' member same =>
      knows.unique (noted₁.known s' member).2 same, noted₂⟩
  · rename_i name ordinal _
    split
    · rename_i e found
      exact .pure ⟨_, .enum found, noted⟩
    · rename_i unknown
      split
      · exact .throw _
      · rename_i lenient
        exact .pure ⟨_, .unknownEnum unknown (by simpa using lenient), noted⟩
  · split
    · rename_i inferred
      exact .pure ⟨_, .builtin inferred, noted⟩
    · exact .throw _

end Write

/-! ## What peers read of types -/

/-- Whether a reader, with its own types, can follow a writer of a graph: structs that are sent or that
the reader has are told apart by their headers, and everything that is counted fits the format. -/
structure Environment.Reaches (W R : Environment) (g : Graph) : Prop where
  writer : W.Evolving
  reader : R.Evolving
  unlimited : R.config.limits = .unlimited
  sized : g.Sized
  distinguished : Distinguished fun s => W.Sends g s ∨ R.registry.HasStruct s
  few : ∀ told : List StructType, (∀ s ∈ told, W.Sends g s) →
    (told.map (·.qualifiedName)).Nodup → told.length ≤ 2 ^ 31

/-- Whether a reader keeps the structs that were told, as far as structs can be confused that are sent or
that it has. -/
abbrev Environment.Told (W R : Environment) (g : Graph) : List StructType → ReadState → Prop :=
  Graphwire.Told (fun s => W.Sends g s ∨ R.registry.HasStruct s) R.registry

/-- Whether a value of a graph is written as one of a type: a record as its struct. -/
inductive Environment.SentAs (W : Environment) (g : Graph) (v : Value) : WireType → Prop where
  | builtin (t : TypeId) : SentAs W g v (.builtin t)
  | record {r : Record} {s : StructType} (isRecord : g.asRecord? v = some r)
      (written : W.structFor? r = some s) : SentAs W g v (.struct s false)
  | enum (typeName : String) (members : Option Nat) : SentAs W g v (.enum typeName members)

/-- Whether what a reader makes of a type stands for the type that was written. -/
inductive WireType.Faces (R : Registry) : WireType → WireType → Prop where
  | builtin (t : TypeId) : Faces R (.builtin t) (.builtin t)
  | struct {s : StructType} (legible : s.Legible) : Faces R (.struct s false) (.peer (R.peer s))
  | enum (typeName typeName' : String) (members members' : Option Nat) :
      Faces R (.enum typeName members) (.enum typeName' members')

namespace Read

variable {env : Environment} {st : ReadState}

/-- What is told of a struct is read as what the reader makes of the struct, unless it must know the
struct. -/
theorem runsIf_structInfo {known : StructType → Prop} {sure : Prop} {told : List StructType}
    {s : StructType} (distinguished : Distinguished known) (hs : known s)
    (legible : sure → (StructType.definitionOf s.id s.package s.typeName s.fields).Tellable
      FieldType.maxDepth)
    (admitted : sure → (env.registry.peer s).own = none → env.config.requireRegistration = false)
    (kind : s.kind = .compatibleStruct ∨ s.kind = .namedCompatibleStruct)
    (kept : Graphwire.Told known env.registry told st)
    (unique : ∀ s' ∈ told, s'.qualifiedName = s.qualifiedName → s' = s)
    (few : (s.toldAfter told).length ≤ 2 ^ 31) :
    RunsIf sure (typeInfo env) st (s.kind.encode ++ s.mention told) fun wire st' =>
      wire = .peer (env.registry.peer s) ∧ s.Legible ∧
        Graphwire.Told known env.registry (s.toldAfter told) st' ∧ st'.graph = st.graph ∧
          st'.slots = st.slots := by
  have code : s.kind.code < 256 := by rcases kind with same | same <;> rw [same] <;> decide
  have other : ∀ t : TypeId, t ≠ .compatibleStruct → t ≠ .namedCompatibleStruct →
      (⟨s.kind.code⟩ : TypeId) ≠ t := by
    rintro t ne ne' rfl
    exact kind.elim ne ne'
  unfold typeInfo
  refine .after (takes_kind code) ?_
  rw [if_neg (not_or.2 ⟨other _ (by decide) (by decide), other _ (by decide) (by decide)⟩),
    if_neg (not_or.2 ⟨other _ (by decide) (by decide), other _ (by decide) (by decide)⟩), if_pos kind]
  refine (runsIf_definition distinguished hs legible kept unique few).then ?_
  rintro p st' ⟨rfl, legible, kept', graph, slots⟩
  dsimp only
  split
  · rename_i refused
    rw [Bool.and_eq_true, Option.isNone_iff_eq_none] at refused
    refine .throw (fun holds => ?_) _
    rw [admitted holds refused.1] at refused
    exact Bool.false_ne_true refused.2
  · exact .pure ⟨rfl, legible, kept', graph, slots⟩

/-- Where an enumeration is announced a member of some enumeration is read, if anything. -/
theorem runsIf_referred {kind : TypeId} (isEnum : kind.isEnum = true) {named : Option NamedType}
    {name : String} {lenient : Bool} :
    RunsIf False (do
      let wire ← check (referredType named name lenient)
      check (checkKind kind wire)) st [] fun wire st' =>
        (∃ typeName members, wire = .enum typeName members) ∧ st' = st := by
  refine .check nofun fun wire referred => ?_
  cases checked : checkKind kind wire with
  | error e => exact .throw id e
  | ok wire' => exact .pure ⟨enum_of_checkKind isEnum referred checked, rfl⟩

/-- What is told of an enumeration is read as some enumeration. -/
theorem runsIf_enumInfo (unlimited : env.config.limits = .unlimited) (id : Option Nat)
    {package typeName : String} (shortPackage : (Utf8.encode package).length < 2 ^ 62)
    (shortName : (Utf8.encode typeName).length < 2 ^ 62) :
    RunsIf False (typeInfo env) st ((if id.isSome then TypeId.enum else .namedEnum).encode ++
        id.elim (Write.names package typeName) Encode.varuint32) fun wire st' =>
      (∃ typeName members, wire = .enum typeName members) ∧ st' = st := by
  have text {s : String} (short : (Utf8.encode s).length < 2 ^ 62) :
      Takes (text env.config.limits) (Encode.text s) s := by
    rw [unlimited]
    exact takes_text (SizeLimits.admitsText_unlimited short)
  unfold typeInfo
  cases id with
  | some id =>
    refine .after (takes_kind (t := .enum) (by decide)) ?_
    rw [if_pos (by decide), ← List.append_nil (Option.elim ..)]
    exact .after (takes_varuint32 id) (runsIf_referred rfl)
  | none =>
    refine .after (takes_kind (t := .namedEnum) (by decide)) ?_
    rw [if_neg (by decide), if_pos (by decide)]
    refine .after (text shortPackage) ?_
    rw [← List.append_nil (Encode.text typeName)]
    exact .after (text shortName) (runsIf_referred rfl)

end Read

namespace Environment.Reaches

open Read (RunsIf)

variable {W R : Environment} {g : Graph} {notes : Notes} {ws : WriteState} {v : Value} {r : Record}
variable (reaches : W.Reaches R g)

include reaches

/-- What is told of a struct is read as what the reader makes of the struct. -/
theorem runsIf_recordInfo {s : StructType} {told : List StructType} (isRecord : g.asRecord? v = some r)
    (written : W.structFor? r = some s) {st : ReadState} (kept : W.Told R g told st)
    (unique : ∀ s' ∈ told, s'.qualifiedName = s.qualifiedName → s' = s)
    (few : (s.toldAfter told).length ≤ 2 ^ 31) :
    RunsIf False (Read.typeInfo R) st (s.kind.encode ++ s.mention told) fun wire' st' =>
      (WireType.struct s false).Faces R.registry wire' ∧ W.Told R g (s.toldAfter told) st' ∧
        st'.graph = st.graph ∧ st'.slots = st.slots := by
  have sendable := (reaches.writer.cases_structFor? written).2.1
  refine (Read.runsIf_structInfo reaches.distinguished
    (.inl (Environment.sends_of_asRecord? isRecord written)) nofun nofun sendable.kind kept unique
    few).mono ?_
  rintro _ st' ⟨rfl, legible, kept', graph, slots⟩
  exact ⟨.struct legible, kept', graph, slots⟩

/-- The type of a value is read as one that stands for it, if it is read. -/
theorem ensures_typeInfo (short : v.Short) (noted : Noted W g notes ws) :
    Write.Ensures (Write.typeInfo W g v) ws fun i ws' => W.SentAs g v i.2 ∧
      ∃ told, Noted W g { notes with told } ws' ∧ ∀ st, W.Told R g notes.told st →
        RunsIf False (Read.typeInfo R) st i.1 fun wire' st' => i.2.Faces R.registry wire' ∧
          W.Told R g told st' ∧ st'.graph = st.graph ∧ st'.slots = st.slots := by
  refine (Write.ensures_typeInfo_introduces noted reaches.writer.toDescribing).mono ?_
  rintro i ws' ⟨told, introduces, noted'⟩
  cases introduces with
  | record isRecord written admitted unique =>
    exact ⟨.record isRecord written, _, noted', fun st kept =>
      reaches.runsIf_recordInfo isRecord written kept unique
        (reaches.few _ (fun s' member => (noted'.known s' member).1) noted'.once)⟩
  | @«enum» name ordinal e found =>
    obtain ⟨front, back⟩ := length_of_qualify (reaches.writer.sound.enumName found).parts
    refine ⟨.enum .., _, noted', fun st kept => (Read.runsIf_enumInfo reaches.unlimited e.id
      (Nat.lt_of_le_of_lt front short.1) (Nat.lt_of_le_of_lt back short.1)).mono ?_⟩
    rintro _ _ ⟨⟨_, _, rfl⟩, rfl⟩
    exact ⟨.enum .., kept, rfl, rfl⟩
  | @unknownEnum name ordinal unknown lenient =>
    obtain ⟨front, back⟩ := length_splitQualified name
    refine ⟨.enum .., _, noted', fun st kept => (Read.runsIf_enumInfo reaches.unlimited none
      (Nat.lt_of_le_of_lt front short.1) (Nat.lt_of_le_of_lt back short.1)).mono ?_⟩
    rintro _ _ ⟨⟨_, _, rfl⟩, rfl⟩
    exact ⟨.enum .., kept, rfl, rfl⟩
  | builtin inferred =>
    obtain ⟨small, builtin⟩ := Graph.isWireBuiltin_of_inferType? inferred
    exact ⟨.builtin _, _, noted', fun st kept =>
      ((Read.takes_builtinInfo small builtin).runs ⟨.builtin _, kept, rfl, rfl⟩).runsIf⟩

end Environment.Reaches

end Graphwire
