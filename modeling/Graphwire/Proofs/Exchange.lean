import Graphwire.Proofs.Channels
import Graphwire.Proofs.MadeUpTypes
import Graphwire.Proofs.Recalling

/-!
# Trees between peers

In compatible mode the values of named types carry their types, and records the definitions of their
structs. A reader shares the types of a writer, except one at most. What was written of a tree without
records of that type comes out at every such reader as it comes out at the writer itself. A record of a
registered type keeps its declared fields that are not null. A record whose type nobody knows is sent as a
struct that is made up of its fields, and keeps all that are not null. A type that nobody knows is named by
the two parts of its name, which no type that the reader knows may have.
-/

namespace Graphwire

set_option autoImplicit false

/-! ## What comes out -/

/-- Where the value of a record's field is written: at the place of the declared field, or at one for
anything if the type of the record is made up. -/
def Environment.placeOf? (env : Environment) (typeName name : String) : Option Place :=
  match env.registry.struct? typeName with
  | some s => (s.fields.find? (·.name = name)).map env.fieldPlace
  | none => some .root

/-- What a scalar value is once a peer has read it. A member of an enumeration that is not registered is
named by the parts of the name. -/
def Value.carried (types : Registry) (p : Place) : Value → Value
  | .enum name ordinal =>
    .enum (if p.typed && (types.enum? name).isNone then rejoined name else name) ordinal
  | v => v.restored p

/-- What a tree is once a peer has read it. -/
def Tree.carried (env : Environment) : Place → Tree → Tree
  | p, leaf v => leaf (v.carried env.registry p)
  | p, list elements => list (elements.map (carried env (env.elementPlace p.shape.parts.1)))
  | p, set elements => set (elements.map (carried env (env.elementPlace p.shape.parts.1)))
  | p, map entries =>
    map (entries.map fun e =>
      (carried env (env.elementPlace p.shape.parts.1) e.1,
        carried env (env.elementPlace p.shape.parts.2) e.2))
  | _, record typeName fields =>
    record (if (env.registry.struct? typeName).isSome then typeName else rejoined typeName)
      (fields.filterMap fun e =>
        if e.2.isNull then none
        else (env.placeOf? typeName e.1).map fun p => (e.1, carried env p e.2))
termination_by _ t => sizeOf t
decreasing_by
  · have := List.sizeOf_lt_of_mem ‹_›
    simp only [list.sizeOf_spec]
    omega
  · have := List.sizeOf_lt_of_mem ‹_›
    simp only [set.sizeOf_spec]
    omega
  · exact sizeOf_fst_lt ‹_›
  · exact sizeOf_snd_lt ‹_›
  · exact sizeOf_field_lt ‹_›

namespace Tree

variable {env : Environment} {p : Place} {typeName : String} {fields : List (String × Tree)}

theorem carried_leaf (v : Value) : (leaf v).carried env p = leaf (v.carried env.registry p) := by
  rw [carried]

theorem carried_list (elements : List Tree) : (list elements).carried env p =
    list (elements.map (carried env (env.elementPlace p.shape.parts.1))) := by
  rw [carried]

theorem carried_set (elements : List Tree) : (set elements).carried env p =
    set (elements.map (carried env (env.elementPlace p.shape.parts.1))) := by
  rw [carried]

theorem carried_map (entries : List (Tree × Tree)) : (map entries).carried env p =
    map (entries.map fun e => (carried env (env.elementPlace p.shape.parts.1) e.1,
      carried env (env.elementPlace p.shape.parts.2) e.2)) := by
  rw [carried]

theorem isNull_carried (env : Environment) (p : Place) (t : Tree) : (t.carried env p).isNull = t.isNull := by
  cases t with
  | leaf v =>
    rw [carried_leaf]
    cases v with
    | enum => rfl
    | _ => exact (Value.restored_kind p _).1
  | _ => rw [carried]; rfl

/-- A record of a registered type keeps its declared fields that are not null. -/
theorem carried_registered {s : StructType} (found : env.registry.struct? typeName = some s) :
    (record typeName fields).carried env p = record typeName (fields.filterMap fun e =>
      (s.kept (fun f => carried env (env.fieldPlace f)) e.1 e.2).map fun t => (e.1, t)) := by
  rw [carried, found]
  refine congrArg (record typeName) (congrArg (fields.filterMap ·) (funext fun e => ?_))
  rw [Environment.placeOf?, found, StructType.kept]
  split
  · rfl
  · rw [Option.map_map, Option.map_map]
    rfl

/-- A record whose type is made up keeps its fields that are not null. -/
theorem carried_unknown (unknown : env.registry.struct? typeName = none) :
    (record typeName fields).carried env p = record (rejoined typeName) (fields.filterMap fun e =>
      if e.2.isNull then none else some (e.1, carried env .root e.2)) := by
  rw [carried, unknown]
  refine congrArg (record _) (congrArg (fields.filterMap ·) (funext fun e => ?_))
  rw [Environment.placeOf?, unknown]
  rfl

end Tree

/-! ## Trees that are shared -/

/-- Whether a reader takes a type that the writer does not know, by the two parts of its name, for no
struct. It need not know types if the writer need not. -/
structure Environment.Admits (W R : Environment) (name : String) : Prop where
  lenient : W.config.requireRegistration = false → R.config.requireRegistration = false
  noStruct : R.registry.struct? (rejoined name) = none

/-- Whether a reader takes a member of such an enumeration. If it has an enumeration of the name, that has
the member. -/
structure Environment.AdmitsMember (W R : Environment) (name : String) (ordinal : Nat) : Prop
    extends W.Admits R name where
  member : ∀ e, R.registry.enum? (rejoined name) = some e → ordinal < e.members.length

/-- Whether a tree can be written, and read where all types are shared but one. It holds no record of that
type; its records and the members of its enumerations are of registered types, or of types that are
admitted without being known. -/
inductive Tree.Shared (W R : Environment) (name : String) : Tree → Prop where
  | leaf {v : Value} (short : v.Short)
      (known : ∀ n ordinal, v = .enum n ordinal → W.registry.enum? n = none →
        W.AdmitsMember W n ordinal ∧ W.AdmitsMember R n ordinal) : Shared W R name (.leaf v)
  | list {elements : List Tree} (count : elements.length < 2 ^ 32)
      (parts : ∀ t ∈ elements, Shared W R name t) : Shared W R name (.list elements)
  | set {elements : List Tree} (count : elements.length < 2 ^ 32)
      (parts : ∀ t ∈ elements, Shared W R name t) : Shared W R name (.set elements)
  | map {entries : List (Tree × Tree)} (count : entries.length < 2 ^ 32)
      (keys : ∀ e ∈ entries, Shared W R name e.1) (values : ∀ e ∈ entries, Shared W R name e.2) :
      Shared W R name (.map entries)
  | record {typeName : String} {fields : List (String × Tree)}
      (other : (W.registry.struct? typeName).isSome → typeName ≠ name)
      (known : W.registry.struct? typeName = none → W.Admits W typeName ∧ W.Admits R typeName)
      (parts : ∀ e ∈ fields, (W.placeOf? typeName e.1).isSome → Shared W R name e.2) :
      Shared W R name (.record typeName fields)

namespace Tree.Shared

variable {W R : Environment} {name : String} {t : Tree}

/-- What is shared with a reader is shared with the writer itself. -/
theorem own (shared : t.Shared W R name) : t.Shared W W name := by
  induction shared with
  | leaf short known =>
    refine .leaf short fun n ordinal same none => ?_
    obtain ⟨mine, -⟩ := known n ordinal same none
    exact ⟨mine, mine⟩
  | list count _ ih => exact .list count ih
  | set count _ ih => exact .set count ih
  | map count _ _ keys values => exact .map count keys values
  | record other known _ ih => exact .record other (fun none => ⟨(known none).1, (known none).1⟩) ih

theorem null : (Tree.leaf .null).Shared W R name := .leaf trivial fun _ _ same => by cases same

theorem fieldOf {typeName : String} {fields : List (String × Tree)} {field : String}
    (shared : (Tree.record typeName fields).Shared W R name)
    (placed : (W.placeOf? typeName field).isSome) :
    (Tree.fieldOf fields field).Shared W R name := by
  cases shared with
  | record _ _ parts =>
    rw [Tree.fieldOf]
    cases set : fields.lookup field with
    | none => exact null
    | some t => exact parts (field, t) (mem_of_lookup set) placed

end Tree.Shared

/-- In compatible mode a value of a named type carries its type. -/
def Place.TellsNames (p : Place) : Prop := p.typed = false → ∀ name, p.shape ≠ .named name

theorem Place.tellsNames_root : root.TellsNames := fun untyped => by cases untyped

namespace Environment

variable {env : Environment} (compatible : env.config.compatible = true)

include compatible

theorem tellsNames_elementPlace (part : Option Shape) : (env.elementPlace part).TellsNames := by
  intro untyped name shape
  cases part with
  | none => cases untyped
  | some inner =>
    have shape : inner = .named name := shape
    subst shape
    simp [elementPlace, isDeclared, compatible] at untyped

theorem tellsNames_fieldPlace (f : Field) : (env.fieldPlace f).TellsNames := by
  intro untyped name shape
  have shape : f.shape = .named name := shape
  simp [fieldPlace, Field.hasTypeInfo, compatible, shape, Shape.isNamed] at untyped

end Environment

/-! ## What peers share -/

/-- Whether a registry has the types of another one under the same identifiers, except the struct of
a name. -/
structure Registry.SharesExcept (W R : Registry) (name : String) : Prop where
  structs : ∀ n s, n ≠ name → W.struct? n = some s → R.struct? n = some s ∧ s.id.isSome = true
  enums : ∀ n e, W.enum? n = some e → R.enum? n = some e ∧ ∃ id, e.id = some id ∧ id < 2 ^ 32

/-- Whether a reader keeps the structs that a writer told. -/
def Environment.InTune (W R : Environment) (g : Graph) (ws : WriteState) (st : ReadState) : Prop :=
  ∃ notes, Noted W g notes ws ∧ Graphwire.Told (W.Sends g) R.registry notes.told st

theorem Environment.InTune.definitional (W R : Environment) (g : Graph) :
    Definitional (W.InTune R g) := by
  rintro ws st st' ⟨notes, noted, told⟩ received cache
  exact ⟨notes, noted, told.members, received.trans told.received, cache ▸ told.cache⟩

/-- A frame starts in tune where nothing is kept of earlier ones. -/
theorem Environment.InTune.initial (W R : Environment) (g : Graph) (bytes : List UInt8) :
    W.InTune R g .initial (.ofBytes bytes .empty) :=
  ⟨_, .initial W g, .initial _ _ _⟩

/-- A writer and a reader without references that share all types but one. The definitions that the writer
sends can be read and told apart by their headers. -/
structure Environment.Exchanges (W R : Environment) (g : Graph) (name : String) : Prop where
  writer : W.Describing
  reader : R.Describing
  untracked : W.config.trackRef = false
  unlimited : R.config.limits = .unlimited
  shared : W.registry.SharesExcept R.registry name
  readable : ∀ s, W.Sends g s → s.Readable
  apart : HeadersApart (W.Sends g)
  types : g.typeNames.eraseDups.length ≤ 2 ^ 31

/-- The type that a value is written as at a place, and what a reader makes of it. -/
inductive Environment.Exchanged (W R : Environment) (g : Graph) (p : Place) :
    Value → WireType → WireType → Prop where
  | registered {v : Value} {r : Record} {s : StructType} (isRecord : g.asRecord? v = some r)
      (found : W.registry.struct? r.typeName = some s) (own : (R.registry.peer s).own = some s)
      (layout : (R.registry.peer s).sameLayout = true) :
      Exchanged W R g p v (.struct s false) (.peer (R.registry.peer s))
  | madeUp {v : Value} {r : Record} {s : StructType} (isRecord : g.asRecord? v = some r)
      (unknown : W.registry.struct? r.typeName = none)
      (made : W.registry.adhocStruct W.config r = .ok s)
      (noStruct : R.registry.struct? (rejoined r.typeName) = none) :
      Exchanged W R g p v (.struct s false) (.peer (R.registry.peer s))
  | enum {name : String} {ordinal : Nat} {e : EnumType} (typed : p.typed = true)
      (found : W.registry.enum? name = some e) : Exchanged W R g p (.enum name ordinal) e.wire e.wire
  | unknownEnum {name : String} {ordinal : Nat} {members : Option Nat} (typed : p.typed = true)
      (unknown : W.registry.enum? name = none) (member : members.all (ordinal < ·) = true) :
      Exchanged W R g p (.enum name ordinal) (.enum name none) (.enum (rejoined name) members)
  | builtin {v : Value} {t : TypeId} (told : W.Tells g p.typed p.shape v (.builtin t)) :
      Exchanged W R g p v (.builtin t) (.builtin t)

/-- A value of a built-in type comes out as its place asks for. -/
theorem Value.carried_of_tells {W : Environment} {g : Graph} {p : Place} {v : Value} {t : TypeId}
    (told : W.Tells g p.typed p.shape v (.builtin t)) : v.carried W.registry p = v.restored p := by
  cases v with
  | enum name ordinal =>
    cases typed : p.typed with
    | false => simp [Value.carried, Value.restored_enum, typed]
    | true =>
      rw [typed] at told
      cases told with
      | announced announced =>
        cases announced with
        | builtin _ inferred => cases inferred
  | _ => rfl

/-- What a writer sends to a reader that shares all types but one: trees that are shared. -/
def Environment.exchange (W R : Environment) (g : Graph) (name : String) : Freight where
  fits p t := p.TellsNames ∧ t.Shared W R name
  landed := Tree.carried W
  told := W.Exchanged R g

/-- What the names of an enumeration that the writer does not know are read as. -/
theorem Read.takes_admitted {W R : Environment} {name : String} {ordinal : Nat} (sound : R.registry.Sound)
    (unlimited : R.config.limits = .unlimited) (short : (Utf8.encode name).length < 2 ^ 62)
    (lenient : W.config.requireRegistration = false) (admits : W.AdmitsMember R name ordinal) :
    ∃ members : Option Nat, members.all (ordinal < ·) = true ∧
      Takes (typeInfo R) (TypeId.namedEnum.encode ++
        Write.names (splitQualified name).1 (splitQualified name).2) (.enum (rejoined name) members) := by
  obtain ⟨front, back⟩ := length_splitQualified name
  have text {s : String} (le : (Utf8.encode s).length ≤ (Utf8.encode name).length) :
      R.config.limits.AdmitsText s :=
    unlimited ▸ SizeLimits.admitsText_unlimited (Nat.lt_of_le_of_lt le short)
  cases found : R.registry.enum? (rejoined name) with
  | some e =>
    refine ⟨some e.members.length, decide_eq_true (admits.member e found), ?_⟩
    refine takes_namesInfo (.inr rfl) (text front) (text back) ?_ rfl
    have named := sound.named?_of_enum? found
    rw [rejoined] at named
    rw [named, ← (sound.enumName found).qualifiedName]
    rfl
  | none =>
    have unnamed : R.registry.named? (rejoined name) = none := by
      simp [Registry.named?, admits.noStruct, found]
    rw [rejoined] at unnamed
    refine ⟨none, rfl, takes_namesInfo (.inr rfl) (text front) (text back) ?_ rfl⟩
    rw [unnamed, admits.lenient lenient]
    rfl

namespace Environment.Exchanges

open Write (Ensures)
open Read (Runs Builds Edits)

variable {W R : Environment} {g : Graph} {name : String} (exchanges : W.Exchanges R g name)

include exchanges

theorem distinguished : Distinguished (W.Sends g) :=
  ⟨fun s sends => (exchanges.writer.sendable_of_sends sends).described.defined_of_brief
    (exchanges.readable s sends).toBrief, exchanges.apart⟩

/-- What is told of a struct is read as what the reader makes of it. -/
theorem runs_structInfo {s : StructType} (sends : W.Sends g s)
    (admitted : (R.registry.peer s).own = none → R.config.requireRegistration = false) {notes : Notes}
    {ws : WriteState} (noted : Noted W g { notes with told := s.toldAfter notes.told } ws)
    (unique : ∀ s' ∈ notes.told, s'.qualifiedName = s.qualifiedName → s' = s) {st : ReadState}
    (told : Graphwire.Told (W.Sends g) R.registry notes.told st) :
    Runs (Read.typeInfo R) st (s.kind.encode ++ s.mention notes.told) fun wire st' =>
      wire = .peer (R.registry.peer s) ∧ W.InTune R g ws st' ∧ st'.graph = st.graph := by
  have sendable := exchanges.writer.sendable_of_sends sends
  have few := exchanges.writer.length_le_typeNames (fun s' member => (noted.known s' member).1) noted.once
  refine ((Read.runsIf_structInfo exchanges.distinguished sends
    (fun _ => sendable.described.tellable_of_readable (exchanges.readable s sends))
    (fun _ => admitted) sendable.kind told unique
    (Nat.le_trans few exchanges.types)).runs trivial).mono ?_
  rintro wire st' ⟨rfl, -, told', graph, -⟩
  exact ⟨rfl, ⟨_, noted, told'⟩, graph⟩

/-- A struct that is shared is told as itself. -/
theorem peer_registered {s : StructType} {typeName : String} (other : typeName ≠ name)
    (found : W.registry.struct? typeName = some s) (sends : W.Sends g s) :
    (R.registry.peer s).own = some s ∧ (R.registry.peer s).sameLayout = true := by
  obtain ⟨found', identified⟩ := exchanges.shared.structs typeName s other found
  obtain ⟨id, ident⟩ := Option.isSome_iff_exists.1 identified
  obtain ⟨header, after, defined⟩ := exchanges.distinguished.defined s sends
  have own := Registry.structOf?_told exchanges.reader.sound exchanges.reader.built found' ident ident
    header
  rw [defined.peer_eq]
  refine ⟨Registry.own_peerOf own, ?_⟩
  rw [Registry.sameLayout_peerOf own, defined.front]
  exact decide_eq_true rfl

/-- The type of a value is told to the reader. -/
theorem ensures_typeInfo {p : Place} {v : Value} {t : Tree} (unfolds : g.Unfolds v t)
    (shared : t.Shared W R name) (typed : p.typed = true) {ws : WriteState} {st : ReadState}
    (tune : W.InTune R g ws st) :
    Ensures (Write.typeInfo W g v) ws fun i ws' => ∃ wire, W.Exchanged R g p v i.2 wire ∧
      Runs (Read.typeInfo R) st i.1 fun wire' st' =>
        wire' = wire ∧ W.InTune R g ws' st' ∧ st'.graph = st.graph := by
  obtain ⟨notes, noted, told⟩ := tune
  refine (Write.ensures_typeInfo_introduces noted exchanges.writer).mono ?_
  rintro i ws' ⟨told', introduces, noted'⟩
  cases introduces with
  | @record _ r s isRecord written admitted unique =>
    have sends := Environment.sends_of_asRecord? isRecord written
    obtain ⟨fields, rfl, -, -⟩ := unfolds.of_node (Graph.nodeOf?_of_asRecord? isRecord)
    refine ⟨.peer (R.registry.peer s), ?_⟩
    cases shared with
    | record other known _ =>
      rcases (exchanges.writer.cases_structFor? written).1 with found | ⟨unknown, made⟩
      · obtain ⟨own, layout⟩ := exchanges.peer_registered (other (by rw [found]; rfl)) found sends
        refine ⟨.registered isRecord found own layout, exchanges.runs_structInfo sends (fun none => ?_)
          noted' unique told⟩
        cases own.symm.trans none
      · obtain ⟨-, admits⟩ := known unknown
        exact ⟨.madeUp isRecord unknown made admits.noStruct, exchanges.runs_structInfo sends
          (fun _ => admits.lenient (admitted unknown)) noted' unique told⟩
  | @«enum» name ordinal e found =>
    obtain ⟨found', id, ident, small⟩ := exchanges.shared.enums name e found
    have takes := Read.takes_enumInfo exchanges.reader.sound found' (by rw [ident]; exact small)
    exact ⟨_, .enum typed found, takes.runs ⟨rfl, ⟨_, noted', told⟩, rfl⟩⟩
  | @unknownEnum name ordinal unknown lenient =>
    cases unfolds with
    | leaf =>
      cases shared with
      | leaf short known =>
        obtain ⟨-, admits⟩ := known name ordinal rfl unknown
        obtain ⟨members, member, takes⟩ := Read.takes_admitted exchanges.reader.sound
          exchanges.unlimited short.1 lenient admits
        exact ⟨_, .unknownEnum typed unknown member, takes.runs ⟨rfl, ⟨_, noted', told⟩, rfl⟩⟩
  | builtin inferred =>
    obtain ⟨small, builtin⟩ := Graph.isWireBuiltin_of_inferType? inferred
    have announced : W.Announces g v _ := .builtin (Graph.asRecord?_of_inferType? inferred) inferred
    exact ⟨_, .builtin (typed ▸ .announced announced),
      (Read.takes_builtinInfo small builtin).runs ⟨rfl, ⟨_, noted', told⟩, rfl⟩⟩

omit exchanges in
/-- What is declared of a value that does not carry its type is a built-in type, and the reader's too. -/
theorem declared {p q : Place} (met : p.Meets q) (typed : p.typed = false) (v : Value) {wire : WireType}
    (declared : W.declaredType p.shape = .ok wire) :
    ∃ wire', R.declaredType q.shape = .ok wire' ∧ W.Exchanged R g p v wire wire' := by
  obtain ⟨-, closed⟩ := met.declared typed
  refine ⟨wire, (Environment.declaredType_of_meets met typed).trans declared, ?_⟩
  have told : W.Tells g p.typed p.shape v wire := typed ▸ .declared declared
  cases shape : p.shape with
  | named name => exact absurd (congrArg Shape.erased shape) closed
  | dynamic => exact absurd (congrArg Shape.erased shape) closed
  | _ =>
    rw [shape] at declared
    cases declared
    exact .builtin told

theorem admits (kind : LimitKind) (n : Nat) : R.config.limits.Admits kind n := by
  rw [exchanges.unlimited]
  exact SizeLimits.admits_unlimited kind n

/-- A part of a shared tree fits where it is written. -/
theorem fits_element {t : Tree} (shared : t.Shared W R name) (part : Option Shape) :
    (W.exchange R g name).fits (W.elementPlace part) t :=
  ⟨tellsNames_elementPlace exchanges.writer.compatible part, shared⟩

omit exchanges in
/-- A scalar comes out as its type tells it. -/
theorem landed_scalar {p : Place} {v : Value} {t : TypeId} {wire : WireType}
    (told : W.Exchanged R g p v (.builtin t) wire) (scalar : t.isContainer = false) :
    (Tree.leaf v).carried W p = .leaf (v.restoredAs t) := by
  generalize same : WireType.builtin t = written at told
  cases told with
  | builtin told =>
    cases same
    rw [Tree.carried_leaf, told.restoredAs scalar, Value.carried_of_tells told]
  | _ => cases same

/-- A member of an enumeration comes out as one of the enumeration that the reader makes of the name. -/
theorem landed_enum {p : Place} {name typeName : String} {ordinal : Nat} {members : Option Nat}
    {wire : WireType} (told : W.Exchanged R g p (.enum name ordinal) (.enum typeName members) wire)
    (member : members.all (ordinal < ·) = true) :
    ∃ typeName' members', wire = .enum typeName' members' ∧ members'.all (ordinal < ·) = true ∧
      (Tree.leaf (.enum name ordinal)).carried W p = .leaf (.enum typeName' ordinal) := by
  generalize same : WireType.enum typeName members = written at told
  cases told with
  | @«enum» _ _ e typed found =>
    have named := (exchanges.writer.sound.enumName found).qualifiedName
    cases same
    exact ⟨_, _, rfl, member, by simp [Tree.carried_leaf, Value.carried, found, named]⟩
  | unknownEnum typed unknown member' =>
    exact ⟨_, _, rfl, member', by simp [Tree.carried_leaf, Value.carried, unknown, typed]⟩
  | _ => cases same

/-- Writer and reader share all that shared trees need. -/
theorem channel : Channel W R g (W.exchange R g name) Place.Meets (W.InTune R g) where
  writer := exchanges.writer.strategy
  reader := exchanges.reader.strategy
  untracked := exchanges.untracked
  built := by
    rw [exchanges.writer.compatible, ← exchanges.untracked]
    exact exchanges.writer.built
  typed _ _ met := met.typed
  parts _ _ met :=
    Environment.meets_parts exchanges.writer.compatible exchanges.reader.compatible met
  fields _ _ known member := by
    obtain ⟨n, found⟩ := known
    exact Environment.meets_fieldPlace exchanges.writer.compatible
      ((exchanges.writer.built.built found).resolved _ member)
  definitional := InTune.definitional W R g
  isNull p t := t.isNull_carried W p
  list p ts fits := by
    obtain ⟨-, shared⟩ := fits
    cases shared with
    | list count parts =>
      exact ⟨count, exchanges.admits _ _, fun t member => exchanges.fits_element (parts t member) _,
        Tree.carried_list ts⟩
  set p ts fits := by
    obtain ⟨-, shared⟩ := fits
    cases shared with
    | set count parts =>
      exact ⟨count, exchanges.admits _ _, fun t member => exchanges.fits_element (parts t member) _,
        Tree.carried_set ts⟩
  map p es fits := by
    obtain ⟨-, shared⟩ := fits
    cases shared with
    | map count keys values =>
      exact ⟨count, exchanges.admits _ _, fun e member => ⟨exchanges.fits_element (keys e member) _,
        exchanges.fits_element (values e member) _⟩, Tree.carried_map es⟩
  record p typeName s fields fits found := by
    refine ⟨fun f member => ⟨tellsNames_fieldPlace exchanges.writer.compatible f, ?_⟩,
      Tree.carried_registered found⟩
    refine fits.2.fieldOf ?_
    rw [Environment.placeOf?, found, Option.isSome_map, List.find?_isSome]
    exact ⟨f, member, decide_eq_true rfl⟩
  builtin p v t wire told := by
    generalize same : WireType.builtin t = written at told
    cases told with
    | builtin => rfl
    | _ => cases same
  scalar p v t wire fits told scalar := by
    obtain ⟨-, shared⟩ := fits
    cases shared with
    | leaf short _ =>
      exact ⟨short, exchanges.unlimited ▸ Value.admitted_unlimited v, landed_scalar told scalar⟩
  enum p name ordinal typeName members wire fits told member := by
    obtain ⟨-, shared⟩ := fits
    cases shared with
    | leaf short _ => exact ⟨short.2, exchanges.landed_enum told member⟩
  declared p q v wire met typed declared := Exchanges.declared met typed v declared
  typeInfo p v t ws st unfolds fits typed tune :=
    exchanges.ensures_typeInfo unfolds fits.2 typed tune

end Environment.Exchanges

/-! ## Records -/

namespace Read

variable {sync : WriteState → ReadState → Prop} {ws ws₁ : WriteState} {bytes : List UInt8}

/-- A field of a struct that the reader does not have is kept under its own name, unless it is null. -/
theorem edits_unknownField {env : Environment} {inner : ReadPayload} {p : PeerStruct} {f : PeerField}
    {P : Graph → Value → Prop} (definitional : Definitional sync) (own : p.own = none)
    (none : f.own = none)
    (hv : Builds sync ws ws₁ (marked env inner f.refMode f.typed f.shape) bytes P) :
    Edits sync ws ws₁ (fun h => peerField env inner p h f) bytes
      fun g r r' => ∃ w, P g w ∧ r' = r.put f.name w := by
  intro st h r step held bound
  apply (hv st step).then
  rintro w st₁ ⟨step₁, ext, built⟩
  have held₁ := (ext.node h bound).trans held
  have bound₁ := Nat.lt_of_lt_of_le bound ext.size
  unfold keepField
  rw [own, none]
  dsimp only [Option.bind_none]
  by_cases null : w.isNull = true
  · rw [if_pos null]
    exact .pure ⟨step₁, ext.altered h, r, held₁, fun g agrees =>
      ⟨w, built g agrees, by rw [Record.put, if_pos null]⟩⟩
  · rw [if_neg null]
    have put : st₁.graph.Replaces (st₁.graph.withField h f.name w) h (.record (r.put f.name w)) := by
      simp only [Graph.withField, held₁, Record.put, if_neg null]
      exact st₁.graph.replaces_set _ bound₁
    have set : ∀ reader, setField h f.name w { st₁ with reader } = .ok ()
        { ({ st₁ with graph := st₁.graph.withField h f.name w } : ReadState) with reader } :=
      fun _ => setField_apply h f.name w _
    refine .silent set ?_
    refine ⟨definitional _ _ _ step₁ rfl rfl, ext.replaced put, _, put.self,
      fun g agrees => ⟨w, built g fun k le lt => ?_, rfl⟩⟩
    have ne : k ≠ h := fun same => by subst same; omega
    exact (agrees k le (put.size ▸ lt)).trans (put.other k ne)

end Read

/-- A struct that was made up for a record keeps all its fields that are not null. -/
theorem Tree.filterMap_kept {s : StructType} {fields : List (String × Tree)}
    (names : s.fields.map (·.name) = fields.map (·.1)) (become : Tree → Tree) :
    (fields.filterMap fun e => (s.kept (fun _ => become) e.1 e.2).map fun t => (e.1, t)) =
      fields.filterMap fun e => if e.2.isNull then none else some (e.1, become e.2) := by
  refine List.filterMap_congr fun e member => ?_
  obtain ⟨f, declared, same⟩ := List.mem_map.1 (names ▸ List.mem_map_of_mem member)
  have some : (s.fields.find? (·.name = e.1)).isSome :=
    List.find?_isSome.2 ⟨f, declared, decide_eq_true same⟩
  obtain ⟨f', known⟩ := Option.isSome_iff_exists.1 some
  rw [StructType.kept, known]
  split <;> rfl

namespace Environment.Exchanges

open Write (Ensures)
open Read (Runs Builds Edits)

variable {W R : Environment} {g : Graph} {name : String} (exchanges : W.Exchanges R g name)
  {write : WritePayload} {read : ReadPayload}
  (delivers : Delivers g (W.exchange R g name) Place.Meets (W.InTune R g) write read)

include exchanges delivers

/-- The fields of a struct that was made up come out under their names, except the nulls. -/
theorem madeUpFields {s : StructType} {r : Record} {tree : String → Tree} {p : PeerStruct}
    (made : W.registry.adhocStruct W.config r = .ok s) (own : p.own = none) (fs : List Field)
    (declared : ∀ f ∈ fs, f ∈ s.fields) (names : (fs.map (·.name)).Nodup)
    (unfolds : ∀ f ∈ fs, g.Unfolds (r.value f.name) (tree f.name))
    (shared : ∀ f ∈ fs, (tree f.name).Shared W R name) (ws : WriteState) :
    Ensures (Write.concat (Write.field W g write s r) fs) ws fun bytes ws' =>
      Edits (W.InTune R g) ws ws' (fun h => Read.each (Read.peerField R read p h)
        (fs.map fun f => .ofEntry none (.ofField f) none)) bytes fun g' =>
          Record.Filled (fun f w => g'.Unfolds w ((tree f.name).carried W .root)) fs := by
  induction fs generalizing ws with
  | nil => exact .pure (.nil fun _ _ => .nil)
  | cons f fs ih =>
    obtain ⟨fresh, names⟩ := List.nodup_cons.1 names
    obtain ⟨declaredHere, declared⟩ := List.forall_mem_cons.1 declared
    obtain ⟨unfoldsHere, unfolds⟩ := List.forall_mem_cons.1 unfolds
    obtain ⟨sharedHere, shared⟩ := List.forall_mem_cons.1 shared
    obtain ⟨mode, typed, shape⟩ := Registry.written_adhocStruct made declaredHere
    have here (ws : WriteState) : Ensures (Write.field W g write s r f) ws fun bytes ws' =>
        Edits (W.InTune R g) ws ws'
          (fun h => Read.peerField R read p h (.ofEntry none (.ofField f) none)) bytes
          fun g' r r' => ∃ w, g'.Unfolds w ((tree f.name).carried W .root) ∧ r' = r.put f.name w := by
      unfold Write.field
      rw [mode, typed, shape, Registry.peerField_adhocStruct made declaredHere]
      have untracked : RefMode.nullOnly ≠ .tracking := by decide
      have fits : (W.exchange R g name).fits .root (tree f.name) := ⟨Place.tellsNames_root, sharedHere⟩
      refine (exchanges.channel.placed delivers untracked Place.meets_root unfoldsHere fits ws).mono ?_
      exact fun bytes ws' builds =>
        Read.edits_unknownField (InTune.definitional W R g) own rfl builds
    refine (here ws).bind fun front ws₁ first => ?_
    refine (ih declared names unfolds shared ws₁).bind fun back ws₂ others =>
      .pure (first.bind others ?_)
    rintro g' r₀ _ r₂ ⟨w, unfolds, rfl⟩ filled
    exact .cons unfolds fresh filled

/-- A record of a struct that was made up comes out by its definition. -/
theorem madeUpRecord {r : Record} {s : StructType} {trees : List (String × Tree)}
    (unknown : W.registry.struct? r.typeName = none)
    (made : W.registry.adhocStruct W.config r = .ok s)
    (noStruct : R.registry.struct? (rejoined r.typeName) = none)
    (names : r.fields.names = trees.map (·.1))
    (values : List.Forall₂ g.Unfolds (r.fields.entries.map (·.2)) (trees.map (·.2)))
    (shared : (Tree.record r.typeName trees).Shared W R name) (p : Place) (ws : WriteState) :
    Ensures (Write.record W g write s false r) ws fun bytes ws' =>
      Builds (W.InTune R g) ws ws' (Read.peerRecord R read (R.registry.peer s) none) bytes
        fun g' w => g'.Unfolds w ((Tree.record r.typeName trees).carried W p) := by
  obtain ⟨own, typeName, entries⟩ := Registry.peer_adhocStruct made noStruct
  have order := (Registry.names_adhocStruct made).trans names
  have placed (f : Field) (_ : f ∈ s.fields) : (Tree.fieldOf trees f.name).Shared W R name :=
    shared.fieldOf (by rw [Environment.placeOf?, unknown]; rfl)
  refine Write.ensures_record exchanges.writer.strategy ((exchanges.madeUpFields delivers made own
    s.fields (fun _ member => member) (StructType.build_built made).names
    (fun f _ => Graph.unfolds_fieldOf names values f.name) placed ws).mono
    fun bytes ws' edits st tune => ?_)
  rw [Read.peerRecord_eq_reconciled (.inr own)]
  refine (Read.runsIf_reconciled (Runs.runsIf ?_)).runs trivial
  rw [PeerStruct.lacking_eq_nil own, entries]
  refine (edits.opened (InTune.definitional W R g) tune).then ?_
  rintro _ st' ⟨tune', ext, r₁, told⟩
  refine .pure ⟨tune', ext, fun g' agrees => ?_⟩
  obtain ⟨node, filled⟩ := told g' agrees
  rw [typeName] at filled
  have sorted : (trees.map (·.1)).Pairwise (· < ·) := names ▸ List.pairwise_map.2 r.fields.sorted
  rw [Tree.carried_unknown unknown, ← Tree.filterMap_kept order]
  exact Graph.unfolds_kept (fun _ t => t.isNull_carried W .root) filled node (List.pairwise_map.1 sorted)

omit delivers

/-- Records come out by the definitions of their structs. -/
theorem deliversRecords :
    DeliversRecords W R g (W.exchange R g name) Place.Meets (W.InTune R g) := by
  intro write read delivers p q v t r s strict wire ws unfolds fits told isRecord named
  generalize same : WireType.struct s strict = written at told
  have mine {r' : Record} (h : g.asRecord? v = some r') : r' = r :=
    Option.some.inj (h.symm.trans isRecord)
  cases told with
  | registered isRecord' found own layout =>
    cases same
    cases mine isRecord'
    simp only [Read.layer, Read.peerRecord, own, layout]
    exact exchanges.channel.ownRecord delivers unfolds fits isRecord found ws
  | madeUp isRecord' unknown made noStruct =>
    cases same
    cases mine isRecord'
    obtain ⟨trees, rfl, names, values⟩ := unfolds.of_node (Graph.nodeOf?_of_asRecord? isRecord)
    exact exchanges.madeUpRecord delivers unknown made noStruct names values fits.2 p ws
  | _ => cases same

/-- What a writer writes of shared trees is read as they come out. -/
theorem payload {levels levels' : Nat} (enough : levels ≤ levels') :
    Delivers g (W.exchange R g name) Place.Meets (W.InTune R g) (Write.payload W g levels)
      (Read.payload R levels') :=
  exchanges.channel.payload exchanges.deliversRecords enough

end Environment.Exchanges

end Graphwire
