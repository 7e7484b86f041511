import Graphwire.Proofs.OwnFrames

/-!
# Types that are known by name

A type without an identifier is told by its package and its name, or by a definition that has both. The
two are put together again by the reader. For an enumeration they are those that it was declared with. A
struct keeps but the whole name, which it splits at the last dot: this loses a dot that stands in front
of a name without dots, and no other one.
-/

namespace Graphwire

set_option autoImplicit false

/-! ## What is told -/

namespace Write

variable {env : Environment} {g : Graph} {v : Value} {ws ws' : WriteState}

theorem typeInfo_enum {name : String} {e : EnumType} (found : env.registry.enum? name = some e)
    (ordinal : Nat) : typeInfo env g (.enum name ordinal) ws =
      .ok ((e.kind.encode ++ e.id.elim (names e.package e.typeName) Encode.varuint32, e.wire), ws) := by
  have noRecord : g.asRecord? (.enum name ordinal) = none := rfl
  unfold typeInfo
  rw [noRecord]
  dsimp only
  rw [found]
  rfl

theorem recordType_registered {r : Record} {s : StructType}
    (found : env.registry.struct? r.typeName = some s) : recordType env r ws = .ok (s, ws) := by
  unfold recordType
  rw [found]
  rfl

/-- A struct in strict mode that has no identifier is told by its names. -/
theorem typeInfo_named {r : Record} {s : StructType} (isRecord : g.asRecord? v = some r)
    (found : env.registry.struct? r.typeName = some s) (kind : s.kind = .namedStruct) :
    typeInfo env g v ws = .ok ((TypeId.namedStruct.encode ++ names s.package s.typeName,
      .struct s !s.isCompatible), ws) := by
  have other : TypeId.namedStruct ≠ .struct := by decide
  unfold typeInfo
  rw [isRecord]
  refine bind_eq_ok_iff.2 ⟨s, ws, recordType_registered found, ?_⟩
  rw [kind, if_neg other, if_pos rfl]
  rfl

/-- A struct in compatible mode is told by its definition. -/
theorem typeInfo_defined {r : Record} {s : StructType} (isRecord : g.asRecord? v = some r)
    (found : env.registry.struct? r.typeName = some s) (noStruct : s.kind ≠ .struct)
    (noNamed : s.kind ≠ .namedStruct) {bytes : List UInt8}
    (sent : definition s ws = .ok (bytes, ws')) :
    typeInfo env g v ws = .ok ((s.kind.encode ++ bytes, .struct s !s.isCompatible), ws') := by
  unfold typeInfo
  rw [isRecord]
  refine bind_eq_ok_iff.2 ⟨s, ws, recordType_registered found, ?_⟩
  rw [if_neg noStruct, if_neg noNamed]
  exact bind_eq_ok_iff.2 ⟨bytes, ws', sent, rfl⟩

end Write

/-! ## Resolving -/

/-- Whether what a writer without definitions so far tells of the type of a value is read, whatever
follows, by a reader that has received none, and the type that it makes of it is the right one. -/
def Environment.Resolves (W R : Environment) (g : Graph) (v : Value) (right : WireType → Prop) : Prop :=
  ∀ ws, ws.sent = [] → ∃ info wire ws', Write.typeInfo W g v ws = .ok ((info, wire), ws') ∧
    ∀ st, st.received = [] → st.cache = .empty →
      Read.Runs (Read.typeInfo R) st info fun wire' _ => right wire'

theorem SizeLimits.admitsText_of_string {limits : SizeLimits} (unlimited : limits.string = none)
    {text : String} (short : (Utf8.encode text).length < 2 ^ 62) : limits.AdmitsText text where
  short := short
  admitted ceiling found := by
    rw [show limits.ceiling .string = limits.string from rfl, unlimited] at found
    cases found

/-- Whether a type that was read is a registered struct, by its names or by a definition of its layout. -/
inductive WireType.IsOwn (s : StructType) : WireType → Prop where
  | names : IsOwn s (.struct s true)
  | definition {p : PeerStruct} (own : p.own = some s) (same : p.sameLayout = true) : IsOwn s (.peer p)

namespace Environment

variable {W R : Environment} {g : Graph} {v : Value} {name : String}
  (registry : R.registry = W.registry)

include registry

/-- What is told of an enumeration leads to it. -/
theorem resolves_enum (sound : W.registry.Sound) (unlimited : R.config.limits.string = none)
    (short : (Utf8.encode name).length < 2 ^ 62) {e : EnumType}
    (found : W.registry.enum? name = some e) (unnumbered : e.id = none) (ordinal : Nat) :
    W.Resolves R g (.enum name ordinal) (· = e.wire) := by
  intro ws _
  have leads : R.Leads e.id e.package e.typeName name := by
    rw [unnumbered]
    exact leads_of_qualify (sound.enumName found).parts (SizeLimits.admitsText_of_string unlimited short)
  have takes := Read.takes_enumInfo (registry ▸ sound) (registry ▸ found) leads
  exact ⟨_, e.wire, ws, Write.typeInfo_enum found ordinal, fun st _ _ => takes.runs rfl⟩

/-- What is told of a struct in strict mode leads to it. -/
theorem resolves_struct {trackRef : Bool} (built : W.registry.BuiltFor false trackRef)
    (unlimited : R.config.limits.string = none) (short : (Utf8.encode name).length < 2 ^ 62)
    {s : StructType} (found : W.registry.struct? name = some s) (unnumbered : s.id = none)
    (recovers : ¬DotOnlyInFront name) {r : Record} (isRecord : g.asRecord? v = some r)
    (named : r.typeName = name) : W.Resolves R g v (WireType.IsOwn s) := by
  intro ws _
  have made := built.built found
  have plain : s.isCompatible = false := made.kind_eq
  have kind : s.kind = .namedStruct := by rw [made.kind, unnumbered]; rfl
  have whole : qualify s.package s.typeName = name := by
    have whole := qualify_splitQualified_iff.2 recovers
    rwa [made.parts] at whole
  have leads : R.Leads none s.package s.typeName name :=
    leads_of_qualify whole (SizeLimits.admitsText_of_string unlimited short)
  obtain ⟨-, shortPackage, shortName⟩ := leads
  have takes : Read.Takes (Read.typeInfo R)
      (TypeId.namedStruct.encode ++ Write.names s.package s.typeName) (.struct s true) := by
    refine Read.takes_namesInfo (.inl rfl) shortPackage shortName ?_ rfl
    rw [whole, registry, Registry.named?_eq_struct_iff.2 found, Read.referredType, plain]
    rfl
  exact ⟨_, _, ws, Write.typeInfo_named isRecord (named ▸ found) kind,
    fun st _ _ => takes.runs .names⟩

/-- The definition of a struct leads to it. -/
theorem resolves_definition {trackRef : Bool} (built : W.registry.BuiltFor true trackRef)
    {s : StructType} (found : W.registry.struct? name = some s) (unnumbered : s.id = none)
    (described : s.Described true) (readable : s.Readable)
    (recovers : ¬DotOnlyInFront name) {r : Record} (isRecord : g.asRecord? v = some r)
    (named : r.typeName = name) :
    W.Resolves R g v (WireType.IsOwn s) := by
  intro ws sent
  have made := built.built found
  have whole : qualify s.package s.typeName = name := by
    have whole := qualify_splitQualified_iff.2 recovers
    rwa [made.parts] at whole
  obtain ⟨header, after, defined⟩ := described.defined_of_brief readable.toBrief
  have distinguished : Distinguished (· = s) :=
    ⟨fun t same => same ▸ ⟨header, after, defined⟩, fun t t' same same' _ => by rw [same, same']⟩
  have own : (R.registry.peer s).own = some s := by
    rw [defined.peer_eq]
    refine Registry.own_peerOf ?_
    rw [Registry.structOf?_told_parts unnumbered whole, registry, found]
  have same : (R.registry.peer s).sameLayout = true := by
    rw [defined.peer_eq] at own ⊢
    rw [Registry.sameLayout_peerOf own, defined.front]
    exact decide_eq_true rfl
  have kind : s.kind = .namedCompatibleStruct := by rw [made.kind, unnumbered]; rfl
  obtain ⟨bytes, -, stored⟩ := described.definition rfl
  have none : ws.sent = ([] : List StructType).map (·.qualifiedName) := sent
  have told := Write.definition_apply (Option.isSome_iff_exists.2 ⟨_, stored⟩) none
  refine ⟨_, _, _, Write.typeInfo_defined isRecord (named ▸ found) (by rw [kind]; decide)
    (by rw [kind]; decide) told, fun st received cache => ?_⟩
  have kept : Graphwire.Told (· = s) R.registry [] st :=
    ⟨fun _ member => absurd member List.not_mem_nil, received, fun _ _ _ _ _ hit => by
      rw [cache] at hit
      cases hit⟩
  refine ((Read.runsIf_structInfo distinguished rfl
    (fun _ => described.tellable_of_readable readable) (fun _ none => ?_) (.inr kind) kept
    (fun _ member => absurd member List.not_mem_nil) ?_).runs trivial).mono ?_
  · cases own.symm.trans none
  · rw [StructType.toldAfter, List.map_nil, if_neg List.not_mem_nil]
    exact Nat.one_le_two_pow
  · rintro wire st' ⟨rfl, -⟩
    exact .definition own same

end Environment

namespace Instance

/-- Types that are registered by name are told so that a fresh reader with the same types finds the type
again, in either mode and without a ceiling for strings: enumerations of any name, and structs whose name
has no dot in front or another one besides, as long as a reader follows the definition of the struct
where it is told by one. -/
theorem Reachable.names_resolve {i : Instance} (reachable : i.Reachable) (sane : i.fault = none)
    {reader : Environment} (registry : reader.registry = i.registry)
    (unlimited : reader.config.limits.string = none) :
    (∀ name e, i.registry.enum? name = some e → e.id = none → (Utf8.encode name).length < 2 ^ 62 →
      ∀ g ordinal, i.environment.Resolves reader g (.enum name ordinal) (· = e.wire)) ∧
    ∀ name s, i.registry.struct? name = some s → s.id = none → ¬DotOnlyInFront name →
      (i.config.compatible = false → (Utf8.encode name).length < 2 ^ 62) →
      (i.config.compatible = true → s.Readable) →
        ∀ g v r, g.asRecord? v = some r → r.typeName = name →
          i.environment.Resolves reader g v (WireType.IsOwn s) := by
  have built := reachable.sound.built sane
  constructor
  · intro name e found unnumbered short g ordinal
    exact Environment.resolves_enum registry reachable.sound.registry unlimited short found unnumbered
      ordinal
  · intro name s found unnumbered recovers short readable g v r isRecord named
    have described := reachable.described sane found
    cases compatible : i.config.compatible with
    | true =>
      rw [compatible] at built described
      exact Environment.resolves_definition registry built found unnumbered described
        (readable compatible) recovers isRecord named
    | false =>
      rw [compatible] at built
      exact Environment.resolves_struct registry built unlimited (short compatible) found unnumbered
        recovers isRecord named

/-- An instance that knows an enumeration and a struct with one field by names. -/
def byName (compatible : Bool) (name : String) (shape : Shape) : Instance :=
  [.setCompatible compatible,
    .registerStruct none ⟨.ofNames "" name, none, false,
      [{ FieldDecl.ofShape "xs" shape with nullable := true }]⟩,
    .registerEnum none ⟨.ofNames "." "E", ["A"]⟩].foldl perform fresh

/-- A record of a type that none of its fields is set of. -/
def blank (name : String) : Graph := ⟨#[.record (.ofType name)]⟩

/-- A struct is found by its name behind two dots and an enumeration by one behind two dots. -/
theorem names_resolve_dots : ∃ s e, (byName true ".a.b" (nested 1)).registry.struct? ".a.b" = some s ∧
    (byName true ".a.b" (nested 1)).registry.enum? "..E" = some e ∧ s.id = none ∧ e.id = none ∧
      s.Readable ∧
      (byName true ".a.b" (nested 1)).environment.Resolves (byName true ".a.b" (nested 1)).environment
        (blank ".a.b") (.handle ⟨0⟩) (WireType.IsOwn s) ∧
      (byName true ".a.b" (nested 1)).environment.Resolves (byName true ".a.b" (nested 1)).environment
        (blank ".a.b") (.enum "..E" 0) (· = e.wire) := by
  have known : ((byName true ".a.b" (nested 1)).registry.struct? ".a.b").any (fun s =>
      s.id = none ∧ s.Short) = true := by decide +kernel
  have enum : ((byName true ".a.b" (nested 1)).registry.enum? "..E").any (fun e => e.id = none) =
      true := by decide +kernel
  obtain ⟨s, found, checks⟩ := (Option.any_eq_true _ _).1 known
  obtain ⟨e, here, unnumbered⟩ := (Option.any_eq_true _ _).1 enum
  obtain ⟨ident, short⟩ := of_decide_eq_true checks
  have readable : s.Readable := ⟨short.brief, fun f member =>
    Nat.le_trans f.nesting_toldShape_le (short.nesting f member)⟩
  have dots : ¬DotOnlyInFront ".a.b" := qualify_splitQualified_iff.1 (by decide)
  have reachable : (byName true ".a.b" (nested 1)).Reachable := ⟨_, rfl⟩
  have unlimited : (byName true ".a.b" (nested 1)).environment.config.limits.string = none := by
    decide +kernel
  obtain ⟨enums, structs⟩ := reachable.names_resolve (by decide +kernel) rfl unlimited
  have compatible : (byName true ".a.b" (nested 1)).config.compatible = true := by decide +kernel
  exact ⟨s, e, found, here, ident, of_decide_eq_true unnumbered, readable,
    structs ".a.b" s found ident dots (fun strict => by rw [compatible] at strict; cases strict)
      (fun _ => readable) (blank ".a.b") (.handle ⟨0⟩) _ rfl rfl,
    enums "..E" e here (of_decide_eq_true unnumbered) (by decide +kernel) _ _⟩

/-- Whether a fresh reader with the same types refuses what is told of a record without fields. -/
def refusesInfo (i : Instance) (name : String) : Bool :=
  match Write.typeInfo i.environment (blank name) (.handle ⟨0⟩) .initial with
  | .error _ => false
  | .ok ((info, _), _) =>
    match Read.typeInfo i.environment (.ofBytes info .empty) with
    | .ok .. => false
    | .error .. => true

theorem not_resolves_of_refusesInfo {i : Instance} {name : String} (h : i.refusesInfo name = true)
    {right : WireType → Prop} :
    ¬i.environment.Resolves i.environment (blank name) (.handle ⟨0⟩) right := by
  intro resolves
  obtain ⟨info, wire, ws', told, reads⟩ := resolves .initial rfl
  obtain ⟨wire', st', p', read, -⟩ := reads (.ofBytes info .empty) rfl rfl 0 []
  rw [List.append_nil] at read
  have read : Read.typeInfo i.environment (.ofBytes info .empty) = .ok wire' _ := read
  rw [refusesInfo, told] at h
  dsimp only at h
  rw [read] at h
  cases h

/-- A struct is not found by a name whose only dot stands in front, and not by a definition whose lists
nest deeper than a reader follows. -/
theorem names_lost :
    (∃ s, (byName false ".foo" (nested 1)).registry.struct? ".foo" = some s ∧ s.id = none ∧
      ¬(byName false ".foo" (nested 1)).environment.Resolves
        (byName false ".foo" (nested 1)).environment (blank ".foo") (.handle ⟨0⟩)
        (WireType.IsOwn s)) ∧
    ∃ s, (byName true "demo.T" (nested 65)).registry.struct? "demo.T" = some s ∧ s.id = none ∧
      ¬(byName true "demo.T" (nested 65)).environment.Resolves
        (byName true "demo.T" (nested 65)).environment (blank "demo.T") (.handle ⟨0⟩)
        (WireType.IsOwn s) := by
  have dotted : ((byName false ".foo" (nested 1)).registry.struct? ".foo").any (fun s =>
      s.id = none) = true := by decide +kernel
  have deep : ((byName true "demo.T" (nested 65)).registry.struct? "demo.T").any (fun s =>
      s.id = none) = true := by decide +kernel
  obtain ⟨s, foundS, unnumberedS⟩ := (Option.any_eq_true _ _).1 dotted
  obtain ⟨t, foundT, unnumberedT⟩ := (Option.any_eq_true _ _).1 deep
  exact ⟨⟨s, foundS, of_decide_eq_true unnumberedS,
      not_resolves_of_refusesInfo (by decide +kernel)⟩,
    t, foundT, of_decide_eq_true unnumberedT, not_resolves_of_refusesInfo (by decide +kernel)⟩

end Instance

end Graphwire
