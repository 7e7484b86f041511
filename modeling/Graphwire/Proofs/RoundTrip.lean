import Graphwire.Proofs.Channels

/-!
# Trees that come back

An instance in strict mode without references reads back what it wrote: a writer and a reader of one
registry expect the same at every place, and the types of values are told by what leads to them
again. Where every type has an identifier and no size is too large, every tree can be written.
-/

namespace Graphwire

set_option autoImplicit false

/-! ## Strict mode -/

namespace Environment

variable {env : Environment} {g : Graph}

/-- The types that a reader of the same registry finds again. -/
def telling (env : Environment) : Telling where
  record name := ∀ s, env.registry.struct? name = some s →
    env.Leads s.id s.package s.typeName name
  enum name := (∀ e, env.registry.enum? name = some e → env.Leads e.id e.package e.typeName name) ∧
    (env.registry.enum? name = none → env.registry.struct? name = none ∧
      env.Leads none (splitQualified name).1 (splitQualified name).2 name)

theorem identifies_of_travels {p : Place} {v : Value} {t : Tree} (unfolds : g.Unfolds v t)
    (travels : t.Travels env env.telling p) (typed : p.typed = true) : env.Identifies g v where
  record _ s isRecord found := travels.toldRecord unfolds typed isRecord s found
  enum name ordinal e same found := ((travels.told unfolds).told typed name ordinal same).1 e found
  unknown name ordinal same absent :=
    ((travels.told unfolds).told typed name ordinal same).2 absent

/-- What a strict writer sends to a reader of the same registry: trees that travel come out restored, and
types are read as they are written. -/
def freight (env : Environment) (g : Graph) : Freight where
  fits p t := t.Travels env env.telling p
  landed p t := t.restored env.registry p
  told p v wire wire' := env.Tells g p.typed p.shape v wire ∧ wire' = wire

/-- A strict writer and a reader of the same registry share everything. -/
theorem Strict.channel (strict : env.Strict) (untracked : env.config.trackRef = false) :
    Channel env env g (env.freight g) Eq fun _ _ => True where
  writer := strict.strategy
  reader := strict.strategy
  untracked
  built := by
    rw [strict.compatible]
    exact untracked ▸ strict.built
  typed _ _ same := by rw [same]
  parts _ _ same := by rw [same]; exact ⟨rfl, rfl⟩
  fields _ _ _ _ := rfl
  definitional _ _ _ _ _ _ := trivial
  isNull p t := t.isNull_restored env.registry p
  list p ts travels := by
    cases travels with
    | list count admitted parts =>
      refine ⟨count, admitted, parts, ?_⟩
      show Tree.restored .. = _
      rw [Tree.restored, strict.elementPlace]
      rfl
  set p ts travels := by
    cases travels with
    | set count admitted parts =>
      refine ⟨count, admitted, parts, ?_⟩
      show Tree.restored .. = _
      rw [Tree.restored, strict.elementPlace]
      rfl
  map p es travels := by
    cases travels with
    | map count admitted keys values =>
      refine ⟨count, admitted, fun e member => ⟨keys e member, values e member⟩, ?_⟩
      show Tree.restored .. = _
      rw [Tree.restored, strict.elementPlace, strict.elementPlace]
      rfl
  record p typeName s fields travels found := by
    refine ⟨fun f member => travels.fieldOf found (strict.built.built found).names member, ?_⟩
    show Tree.restored .. = _
    rw [Tree.restored_record, Tree.kept_eq found, funext strict.fieldPlace]
    rfl
  builtin _ _ _ _ told := told.2
  scalar p v t wire travels told scalar := by
    cases travels with
    | leaf short admitted _ =>
      refine ⟨short, admitted, ?_⟩
      show Tree.restored .. = _
      rw [Tree.restored, told.1.restoredAs scalar]
  enum p name ordinal typeName members wire travels told member := by
    cases travels with
    | leaf short _ named =>
      refine ⟨short.2, typeName, members, told.2, member, ?_⟩
      show Tree.restored .. = _
      rw [Tree.restored, Value.restored_enum, told.1.enum strict.sound named]
  declared p q v wire same typed declared :=
    ⟨wire, same ▸ declared, typed ▸ .declared declared, rfl⟩
  typeInfo p v t ws st unfolds travels typed _ :=
    (Write.ensures_typeInfo strict (identifies_of_travels unfolds travels typed)).mono
      fun _ _ after => ⟨_, ⟨typed ▸ .announced after.2.1, rfl⟩,
        after.2.2.runs ⟨rfl, trivial, rfl⟩⟩

/-- The records of registered types come out, and no others are written. -/
theorem Strict.deliversRecords (strict : env.Strict) (untracked : env.config.trackRef = false) :
    DeliversRecords env env g (env.freight g) Eq fun _ _ => True := by
  rintro write read delivers p q v t r s strictly wire ws unfolds travels ⟨told, rfl⟩ isRecord named
  have channel := strict.channel (g := g) untracked
  exact channel.ownRecord delivers unfolds travels isRecord
    (told.struct channel.built isRecord named) ws

end Environment

/-- An environment in strict mode without references and ceilings, in which every type has an
identifier. -/
structure Environment.Plain (env : Environment) : Prop extends env.Strict where
  untracked : env.config.trackRef = false
  unlimited : env.config.limits = .unlimited
  identified : env.registry.Identified

theorem Environment.Plain.leads {env : Environment} (plain : env.Plain) {name : String}
    {id : Option Nat} (member : (name, id) ∈ env.registry.types) (package typeName : String) :
    env.Leads id package typeName name := by
  obtain ⟨n, same, small⟩ := plain.identified _ member
  subst same
  exact small

/-- A value that can be written can be told, where every type has an identifier. -/
theorem Value.Named.told {env : Environment} (plain : env.Plain) {p : Place} {v : Value}
    (named : v.Named env.registry p) (short : v.Short) : v.Told env.registry env.telling p := by
  refine ⟨named.declared, fun typed name ordinal same => ⟨fun e found => ?_, fun absent => ?_⟩⟩
  · exact plain.leads (Registry.mem_types_of_enum? found) ..
  · have recovers := named.unknown typed name ordinal same absent
    subst same
    refine ⟨recovers.noStruct, Environment.leads_of_qualify recovers.qualified ?_⟩
    rw [plain.unlimited]
    exact SizeLimits.admitsText_unlimited short.1

/-- What can be written can be told, where every type has an identifier and every size is
admitted. -/
theorem Tree.Writable.travels {env : Environment} (plain : env.Plain) {p : Place} {t : Tree}
    (h : t.Writable env.registry p) : t.Travels env env.telling p := by
  have admits (kind : LimitKind) (n : Nat) : env.config.limits.Admits kind n := by
    rw [plain.unlimited]
    exact SizeLimits.admits_unlimited kind n
  induction h with
  | leaf short named =>
    exact .leaf short (plain.unlimited ▸ Value.admitted_unlimited _) (named.told plain short)
  | list count _ ih =>
    exact .list count (admits _ _) fun t member => by
      rw [plain.elementPlace]
      exact ih t member
  | set count _ ih =>
    exact .set count (admits _ _) fun t member => by
      rw [plain.elementPlace]
      exact ih t member
  | map count _ _ keys values =>
    refine .map count (admits _ _) (fun e member => ?_) (fun e member => ?_)
    · rw [plain.elementPlace]
      exact keys e member
    · rw [plain.elementPlace]
      exact values e member
  | record _ ih =>
    refine .record (fun _ s found => plain.leads (plain.built.mem_types found) ..) ?_
    intro e member f found
    rw [plain.fieldPlace]
    exact ih e member f found

/-! ## Instances -/

namespace Instance

/-- An instance that walks records field by field reads the restored tree back. -/
theorem interpreted_deserialize_serialize {i : Instance} (sane : i.fault = none)
    (strict : i.environment.Strict) (untracked : i.config.trackRef = false) {g : Graph} {v : Value}
    {t : Tree} (unfolds : g.Unfolds v t) (travels : t.Travels i.environment i.environment.telling .root)
    {bytes : List UInt8} (written : i.serialize g v = .ok bytes) :
    ∃ w g', (i.deserialize bytes).1 = .ok (w, g') ∧ g'.Unfolds w (t.restored i.registry .root) := by
  obtain ⟨-, ⟨rfl, rfl⟩ | ⟨-, body, ws, rfl, run⟩⟩ := ok_of_serialize written
  · cases unfolds
    refine ⟨_, _, i.deserialize_null sane, ?_⟩
    rw [Tree.restored, Value.restored_null]
    exact .leaf rfl
  · have noRef : i.rootMode ≠ .tracking := by
      rw [rootMode, untracked]
      decide
    have channel := strict.channel (g := g) untracked
    have delivers := channel.payload (strict.deliversRecords untracked) (Nat.le_refl i.config.maxDepth)
    have builds := channel.placed delivers noRef (p := .root) rfl unfolds travels .initial body ws run
    obtain ⟨w, st, read, -, ext, h⟩ := deserialize_of_runs sane (builds _ trivial)
    exact ⟨w, st.graph, read, h st.graph fun _ _ _ => rfl⟩

/-- In strict mode without references, what is written of a tree is read back as the restored
tree. -/
theorem deserialize_serialize {i : Instance} (reached : i.ReachedById)
    (strict : i.config.compatible = false) (untracked : i.config.trackRef = false)
    (unlimited : i.config.limits = .unlimited) {g : Graph} {v : Value} {t : Tree}
    (unfolds : g.Unfolds v t) (writable : t.Writable i.registry .root) {bytes : List UInt8}
    (written : i.serialize g v = .ok bytes) :
    ∃ w g', (i.deserialize bytes).1 = .ok (w, g') ∧ g'.Unfolds w (t.restored i.registry .root) := by
  have sane := sane_of_serialize written
  have plain : (i.setStrategy .interpreted).environment.Plain :=
    { reached.reachable.strict sane strict with
      untracked
      unlimited
      identified := reached.identified }
  rw [show i.serialize g v = (i.setStrategy .interpreted).serialize g v from
    reached.reachable.serialize_setStrategy i.config.strategy .interpreted g v] at written
  obtain ⟨w, g', read, h⟩ := interpreted_deserialize_serialize (i := i.setStrategy .interpreted)
    sane plain.toStrict untracked unfolds (writable.travels plain) written
  exact ⟨w, g', reached.reachable.deserialize_eq_ok read, h⟩

/-- An instance that admits unknown enumerations and every size. It knows a struct with a number and
an enumeration. -/
def lenient : Instance :=
  [.setLimits .unlimited, .setRequireRegistration false,
    .registerStruct (some 1)
      ⟨.ofNames "demo" "T", none, false, [.ofShape "count" (.scalar .varint32)]⟩,
    .registerEnum (some 2) ⟨.ofNames "demo" "Grade", ["LOW", "HIGH"]⟩].foldl perform fresh

theorem lenient_reachedById : lenient.ReachedById := by
  refine ⟨_, ?_, rfl⟩
  intro a member
  simp only [List.mem_cons, List.not_mem_nil, or_false] at member
  rcases member with rfl | rfl | rfl | rfl
  · trivial
  · trivial
  · exact ⟨1, rfl, by decide⟩
  · exact ⟨2, rfl, by decide⟩

/-- A record with a number of eight bits and a field that its struct does not declare. -/
def noted : Record :=
  ((Record.ofType "demo.T").set "count" (.int ⟨.int8, 5, by decide⟩)).set "note" (.bool true)

/-- A list of a record twice, a member of an enumeration and an instant beyond microseconds. -/
def notes : Graph :=
  ⟨#[.list [.handle ⟨1⟩, .handle ⟨1⟩, .enum "demo.Grade" 1, .timestamp ⟨1500, by decide⟩],
    .record noted]⟩

def notedTree : Tree :=
  .record "demo.T" [("count", .leaf (.int ⟨.int8, 5, by decide⟩)), ("note", .leaf (.bool true))]

def notesTree : Tree :=
  .list [notedTree, notedTree, .leaf (.enum "demo.Grade" 1), .leaf (.timestamp ⟨1500, by decide⟩)]

theorem notes_unfolds : notes.Unfolds (.handle ⟨0⟩) notesTree := by
  have record : notes.Unfolds (.handle ⟨1⟩) notedTree :=
    .record (r := noted) rfl rfl (.cons (.leaf rfl) (.cons (.leaf rfl) .nil))
  exact .list rfl (.cons record (.cons record (.cons (.leaf rfl) (.cons (.leaf rfl) .nil))))

theorem lenient_count :
    ∃ f, lenient.registry.field? "demo.T" "count" = some f ∧ f.place = ⟨false, .scalar .varint32⟩ := by
  have known : ((lenient.registry.field? "demo.T" "count").any fun f =>
      f.place = ⟨false, .scalar .varint32⟩) = true := by decide +kernel
  obtain ⟨f, found, place⟩ := (Option.any_eq_true _ _).1 known
  exact ⟨f, found, of_decide_eq_true place⟩

theorem lenient_note : lenient.registry.field? "demo.T" "note" = none := by
  have unknown : (lenient.registry.field? "demo.T" "note").isNone = true := by decide +kernel
  simpa using unknown

theorem notesTree_writable : notesTree.Writable lenient.registry .root := by
  have known : (lenient.registry.enum? "demo.Grade").isSome = true := by decide +kernel
  have record (p : Place) : notedTree.Writable lenient.registry p := by
    refine .record (List.forall_mem_cons.2 ⟨?_, List.forall_mem_singleton.2 ?_⟩)
    · intro f _
      exact .leaf trivial (Value.named_of_ne fun _ _ same => by cases same)
    · intro f found
      rw [lenient_note] at found
      cases found
  refine .list (by decide) ?_
  intro t member
  simp only [List.mem_cons, List.not_mem_nil, or_false] at member
  rcases member with rfl | rfl | rfl | rfl
  · exact record _
  · exact record _
  · have short : (Utf8.encode "demo.Grade").length < 2 ^ 62 := by decide +kernel
    refine .leaf ⟨short, by decide⟩ ⟨fun declared => absurd declared (by decide), ?_⟩
    intro _ name ordinal same unknown
    cases same
    rw [unknown] at known
    cases known
  · exact .leaf trivial (Value.named_of_ne fun _ _ same => by cases same)

theorem restored_notesTree :
    notesTree.restored lenient.registry .root =
      .list [.record "demo.T" [("count", .leaf (.int ⟨.int32, 5, by decide⟩))],
        .record "demo.T" [("count", .leaf (.int ⟨.int32, 5, by decide⟩))],
        .leaf (.enum "demo.Grade" 1), .leaf (.timestamp ⟨1000, by decide⟩)] := by
  obtain ⟨f, found, place⟩ := lenient_count
  have number : (Value.int ⟨.int8, 5, by decide⟩).restored ⟨false, .scalar .varint32⟩ =
      .int ⟨.int32, 5, by decide⟩ := by decide +kernel
  have instant : (Value.timestamp ⟨1500, by decide⟩).cut = .timestamp ⟨1000, by decide⟩ := by
    decide +kernel
  have enum (p : Place) : (Value.enum "demo.Grade" 1).restored p = .enum "demo.Grade" 1 :=
    Value.restored_enum p _ _
  have elements : lenient.registry.elementPlace Place.root.shape.parts.1 = .root := rfl
  simp [notesTree, notedTree, Tree.restored, Tree.isNull, Value.isNull, found, place, lenient_note,
    number, elements, enum]
  exact instant

theorem deserialize_serialize_notes :
    notes.Unfolds (.handle ⟨0⟩) notesTree ∧ notesTree.Writable lenient.registry .root ∧
      lenient.serialize notes (.handle ⟨0⟩) = .ok [212, 98, 6, 255, 22, 4, 0, 27, 1, 174, 111, 208,
        33, 10, 27, 1, 174, 111, 208, 33, 10, 25, 2, 1, 38, 1, 0, 0, 0, 0, 0, 0, 0] ∧
      ∃ w g', (lenient.deserialize [212, 98, 6, 255, 22, 4, 0, 27, 1, 174, 111, 208, 33, 10, 27, 1,
          174, 111, 208, 33, 10, 25, 2, 1, 38, 1, 0, 0, 0, 0, 0, 0, 0]).1 = .ok (w, g') ∧
        g'.Unfolds w (.list [.record "demo.T" [("count", .leaf (.int ⟨.int32, 5, by decide⟩))],
          .record "demo.T" [("count", .leaf (.int ⟨.int32, 5, by decide⟩))],
          .leaf (.enum "demo.Grade" 1), .leaf (.timestamp ⟨1000, by decide⟩)]) := by
  have written : lenient.serialize notes (.handle ⟨0⟩) = .ok [212, 98, 6, 255, 22, 4, 0, 27, 1, 174,
      111, 208, 33, 10, 27, 1, 174, 111, 208, 33, 10, 25, 2, 1, 38, 1, 0, 0, 0, 0, 0, 0, 0] := by
    decide +kernel
  have read := deserialize_serialize lenient_reachedById (by decide +kernel) (by decide +kernel)
    (by decide +kernel) notes_unfolds notesTree_writable written
  rw [restored_notesTree] at read
  exact ⟨notes_unfolds, notesTree_writable, written, read⟩

/-- A member of an unknown enumeration does not come back if a struct has the name of the
enumeration, and not under its name if that starts with a dot. -/
theorem deserialize_serialize_unknown_enum :
    (lenient.serialize .empty (.enum "demo.T" 0) =
        .ok [212, 98, 6, 255, 26, 18, 100, 101, 109, 111, 6, 84, 0] ∧
      (lenient.deserialize [212, 98, 6, 255, 26, 18, 100, 101, 109, 111, 6, 84, 0]).1 =
        .error (.enumInfoForStruct "demo.T")) ∧
    (lenient.serialize .empty (.enum ".foo" 0) =
        .ok [212, 98, 6, 255, 26, 2, 14, 102, 111, 111, 0] ∧
      (lenient.deserialize [212, 98, 6, 255, 26, 2, 14, 102, 111, 111, 0]).1 =
        .ok (.enum "foo" 0, .empty)) := by
  refine ⟨⟨?_, ?_⟩, ?_, ?_⟩ <;> decide +kernel

end Instance

end Graphwire
