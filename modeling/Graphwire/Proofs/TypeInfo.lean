import Graphwire.Proofs.Reachable
import Graphwire.Proofs.Scalars

/-!
# Types that come back

What stands in front of values in strict mode. The type of a record or of a member of a registered
enumeration is told by its identifier, that of a member of an unknown enumeration by its names, and
every other type by its code alone. A reader of the same registry finds the same type again.
-/

namespace Graphwire

set_option autoImplicit false

/-- An environment in strict mode whose records are walked field by field. -/
structure Environment.Strict (env : Environment) : Prop where
  compatible : env.config.compatible = false
  strategy : env.config.strategy = .interpreted
  sound : env.registry.Sound
  built : env.registry.BuiltFor false env.config.trackRef

/-- A strict instance walks records field by field once it is told to. -/
theorem Instance.Reachable.strict {i : Instance} (reachable : i.Reachable) (sane : i.fault = none)
    (compatible : i.config.compatible = false) :
    (i.setStrategy .interpreted).environment.Strict :=
  { compatible
    strategy := rfl
    sound := reachable.sound.registry
    built := by
      have built := reachable.sound.built sane
      rwa [compatible] at built }

variable {env : Environment} {g : Graph} {v : Value} {wire : WireType}

/-! ## What is written -/

namespace Environment

/-- Whether what is told of a type leads to its name: an identifier of 32 bits, or two names that
are admitted and make up the name. -/
def Leads (env : Environment) (id : Option Nat) (package typeName name : String) : Prop :=
  match id with
  | some id => id < 2 ^ 32
  | none => qualify package typeName = name ∧ env.config.limits.AdmitsText package ∧
      env.config.limits.AdmitsText typeName

/-- Whether what is told of the type of a value leads to the type. -/
structure Identifies (env : Environment) (g : Graph) (v : Value) : Prop where
  record : ∀ r s, g.asRecord? v = some r → env.registry.struct? r.typeName = some s →
    env.Leads s.id s.package s.typeName r.typeName
  enum : ∀ name ordinal e, v = .enum name ordinal → env.registry.enum? name = some e →
    env.Leads e.id e.package e.typeName name
  unknown : ∀ name ordinal, v = .enum name ordinal → env.registry.enum? name = none →
    env.registry.struct? name = none ∧
      env.Leads none (splitQualified name).1 (splitQualified name).2 name

/-- The type that a value is written with where nothing declares it. -/
inductive Announces (env : Environment) (g : Graph) : Value → WireType → Prop where
  | record {v : Value} {r : Record} {s : StructType} (isRecord : g.asRecord? v = some r)
      (found : env.registry.struct? r.typeName = some s) :
      Announces env g v (.struct s !s.isCompatible)
  | enum {name : String} {ordinal : Nat} {e : EnumType}
      (found : env.registry.enum? name = some e) : Announces env g (.enum name ordinal) e.wire
  | unknownEnum {name : String} {ordinal : Nat} (unknown : env.registry.enum? name = none) :
      Announces env g (.enum name ordinal) (.enum name none)
  | builtin {v : Value} {t : TypeId} (noRecord : g.asRecord? v = none)
      (inferred : g.inferType? v = some t) : Announces env g v (.builtin t)

/-- The type that a value is written with where a shape is declared, told or not. -/
inductive Tells (env : Environment) (g : Graph) : Bool → Shape → Value → WireType → Prop where
  | announced {shape : Shape} {v : Value} {wire : WireType} (h : env.Announces g v wire) :
      Tells env g true shape v wire
  | declared {shape : Shape} {v : Value} {wire : WireType} (h : env.declaredType shape = .ok wire) :
      Tells env g false shape v wire

end Environment

/-- Whether the two parts of the name of an unknown enumeration lead to it and to nothing else. -/
structure Registry.Recovers (r : Registry) (name : String) : Prop where
  qualified : qualify (splitQualified name).1 (splitQualified name).2 = name
  noStruct : r.struct? name = none

theorem Utf8.length_encode_append (s t : String) :
    (encode (s ++ t)).length = (encode s).length + (encode t).length := by
  simp [encode]

/-- The parts of a name are not longer than the name. -/
theorem length_of_qualify {package typeName name : String} (h : qualify package typeName = name) :
    (Utf8.encode package).length ≤ (Utf8.encode name).length ∧
      (Utf8.encode typeName).length ≤ (Utf8.encode name).length := by
  subst h
  unfold qualify
  split
  · rename_i none
    rw [none]
    exact ⟨by simp [Utf8.encode], Nat.le_refl _⟩
  · rw [Utf8.length_encode_append, Utf8.length_encode_append]
    omega

/-- Two parts lead to a name that is admitted itself. -/
theorem Environment.leads_of_qualify {package typeName name : String}
    (h : qualify package typeName = name) (admitted : env.config.limits.AdmitsText name) :
    env.Leads none package typeName name := by
  obtain ⟨front, back⟩ := length_of_qualify h
  exact ⟨h, ⟨Nat.lt_of_le_of_lt front admitted.short, admitted.admitted.mono front⟩,
    Nat.lt_of_le_of_lt back admitted.short, admitted.admitted.mono back⟩

theorem StructType.Built.kind_eq {compatible trackRef : Bool} {name : String} {id : Option Nat}
    {s : StructType} (built : s.Built compatible trackRef name id) :
    s.isCompatible = compatible := by
  unfold StructType.isCompatible
  rw [built.kind]
  cases id <;> cases compatible <;> rfl

/-! ## What is read -/

theorem Registry.Sound.byId?_struct {compatible trackRef : Bool} {r : Registry} (sound : r.Sound)
    (built : r.BuiltFor compatible trackRef) {name : String} {s : StructType} {id : Nat}
    (found : r.struct? name = some s) (ident : s.id = some id) :
    r.byId? id = some (.struct s) := by
  rw [sound.byId? (ident ▸ built.mem_types found), named?_eq_struct_iff]
  exact found

theorem Registry.Sound.byId?_enum {r : Registry} (sound : r.Sound) {name : String} {e : EnumType}
    {id : Nat} (found : r.enum? name = some e) (ident : e.id = some id) :
    r.byId? id = some (.enum e) := by
  rw [sound.byId? (ident ▸ mem_types_of_enum? found), sound.named?_of_enum? found]

/-- A type that values are preceded by has a code of one byte, which no registered type has. -/
theorem Graph.isWireBuiltin_of_inferType? {t : TypeId} (h : g.inferType? v = some t) :
    t.code < 256 ∧ t.isWireBuiltin = true := by
  cases v with
  | int n =>
    simp only [Graph.inferType?, Option.some.injEq] at h
    subst h
    cases n.kind <;> exact ⟨by decide, by decide⟩
  | handle h' =>
    simp only [Graph.inferType?] at h
    split at h <;> cases h <;> exact ⟨by decide, by decide⟩
  | _ => cases h <;> exact ⟨by decide, by decide⟩

theorem Graph.asRecord?_of_inferType? {t : TypeId} (inferred : g.inferType? v = some t) :
    g.asRecord? v = none := by
  cases v with
  | handle h => cases node : g.node h <;> simp_all [inferType?, asRecord?, nodeOf?, Value.handle?]
  | _ => rfl

namespace Read

theorem takes_kind {t : TypeId} (small : t.code < 256) :
    Takes (decode Decode.octet) t.encode t.code := by
  have byte : t.code.toUInt8.toNat = t.code := by simp; omega
  have octet := Decode.yields_octet t.code.toUInt8
  rw [byte] at octet
  exact .decode octet

/-- A type that is told by its identifier. -/
theorem takes_idInfo {kind : TypeId} {id : Nat} (byId : kind = .struct ∨ kind = .enum)
    (small : id < 2 ^ 32)
    (referred : ∀ lenient, referredType (env.registry.byId? id) s!"type#{id}" lenient = .ok wire)
    (fits : checkKind kind wire = .ok wire) :
    Takes (typeInfo env) (kind.encode ++ Encode.varuint32 id) wire := by
  have code : kind.code < 256 := by rcases byId with rfl | rfl <;> decide
  refine (takes_kind code).bind ?_
  have byId : (⟨kind.code⟩ : TypeId) = .struct ∨ (⟨kind.code⟩ : TypeId) = .enum := byId
  rw [if_pos byId]
  refine (Takes.decode (Decode.yields_varuint32 small)).then ?_
  exact (Takes.check (referred _)).after (.check fits)

/-- A type that is told by two names. -/
theorem takes_namesInfo {kind : TypeId} {package typeName : String}
    (byName : kind = .namedStruct ∨ kind = .namedEnum)
    (shortPackage : env.config.limits.AdmitsText package)
    (shortName : env.config.limits.AdmitsText typeName)
    (referred : referredType (env.registry.named? (qualify package typeName))
      (qualify package typeName) (!env.config.requireRegistration && kind.isEnum) = .ok wire)
    (fits : checkKind kind wire = .ok wire) :
    Takes (typeInfo env) (kind.encode ++ Write.names package typeName) wire := by
  have code : kind.code < 256 := by rcases byName with rfl | rfl <;> decide
  refine (takes_kind code).bind ?_
  have other : ¬((⟨kind.code⟩ : TypeId) = .struct ∨ (⟨kind.code⟩ : TypeId) = .enum) := by
    rcases byName with rfl | rfl <;> decide
  have byName : (⟨kind.code⟩ : TypeId) = .namedStruct ∨ (⟨kind.code⟩ : TypeId) = .namedEnum := byName
  rw [if_neg other, if_pos byName]
  refine (takes_text shortPackage).bind ((takes_text shortName).then ?_)
  exact (Takes.check referred).after (.check fits)

theorem takes_builtinInfo {t : TypeId} (small : t.code < 256) (builtin : t.isWireBuiltin = true) :
    Takes (typeInfo env) t.encode (.builtin t) := by
  refine (takes_kind small).then ?_
  have other : ∀ u : TypeId, u.isWireBuiltin = false → (⟨t.code⟩ : TypeId) ≠ u := by
    rintro u no rfl
    simp [no] at builtin
  rw [if_neg (not_or.2 ⟨other _ rfl, other _ rfl⟩), if_neg (not_or.2 ⟨other _ rfl, other _ rfl⟩),
    if_neg (not_or.2 ⟨other _ rfl, other _ rfl⟩), if_pos builtin]
  exact .pure _

theorem typed_eq (inner : ReadPayload) (hasType : Bool) (shape : Shape) (slot : Option Nat) :
    typed env inner hasType shape slot =
      (if hasType then typeInfo env else check (env.declaredType shape)) >>= fun wire =>
        inner wire shape slot := by
  cases hasType <;> rfl

/-- What is told of a registered struct is read back. -/
theorem takes_structInfo (strict : env.Strict) {name : String} {s : StructType}
    (found : env.registry.struct? name = some s)
    (leads : env.Leads s.id s.package s.typeName name) :
    Takes (typeInfo env) (s.kind.encode ++ s.id.elim (Write.names s.package s.typeName)
      Encode.varuint32) (.struct s true) := by
  have built := strict.built.built found
  have plain : s.isCompatible = false := built.kind_eq
  have known : env.registry.named? name = some (.struct s) :=
    Registry.named?_eq_struct_iff.2 found
  cases ident : s.id with
  | some id =>
    rw [ident] at leads
    have kind : s.kind = .struct := by rw [built.kind, ident]; rfl
    rw [kind]
    refine takes_idInfo (.inl rfl) leads (fun lenient => ?_) rfl
    rw [strict.sound.byId?_struct strict.built found ident, referredType, plain]
    rfl
  | none =>
    rw [ident] at leads
    obtain ⟨qualified, shortPackage, shortName⟩ := leads
    have kind : s.kind = .namedStruct := by rw [built.kind, ident]; rfl
    rw [kind]
    refine takes_namesInfo (.inl rfl) shortPackage shortName ?_ rfl
    rw [qualified, known, referredType, plain]
    rfl

/-- What is told of a registered enumeration is read back. -/
theorem takes_enumInfo (sound : env.registry.Sound) {name : String} {e : EnumType}
    (found : env.registry.enum? name = some e)
    (leads : env.Leads e.id e.package e.typeName name) :
    Takes (typeInfo env) (e.kind.encode ++ e.id.elim (Write.names e.package e.typeName)
      Encode.varuint32) e.wire := by
  have known := sound.named?_of_enum? found
  cases ident : e.id with
  | some id =>
    rw [ident] at leads
    rw [EnumType.kind, ident]
    refine takes_idInfo (.inr rfl) leads (fun lenient => ?_) rfl
    rw [sound.byId?_enum found ident]
    rfl
  | none =>
    rw [ident] at leads
    obtain ⟨qualified, shortPackage, shortName⟩ := leads
    rw [EnumType.kind, ident]
    refine takes_namesInfo (.inr rfl) shortPackage shortName ?_ rfl
    rw [qualified, known]
    rfl

/-- The names of an unknown enumeration lead to it again if nothing else has its name. -/
theorem takes_unknownEnumInfo {package typeName name : String}
    (lenient : env.config.requireRegistration = false)
    (unknown : env.registry.named? name = none)
    (leads : env.Leads none package typeName name) :
    Takes (typeInfo env) (TypeId.namedEnum.encode ++ Write.names package typeName)
      (.enum name none) := by
  obtain ⟨qualified, shortPackage, shortName⟩ := leads
  refine takes_namesInfo (.inr rfl) shortPackage shortName ?_ rfl
  rw [qualified, unknown, lenient]
  rfl

end Read

/-! ## What is written and read -/

namespace Write

variable {st : WriteState}

/-- A record is written as the struct that is registered. If there is none, and that is admitted, it is
written as the one that was made up before, which must have the fields of the record, or as one that is
made up of its fields and remembered. -/
theorem ensures_recordType_cases {r : Record} {Q : StructType → WriteState → Prop}
    (registered : ∀ s, env.registry.struct? r.typeName = some s → Q s st)
    (remembered : env.registry.struct? r.typeName = none →
      (env.config.requireRegistration || !env.config.compatible) = false →
        ∀ s, st.adhoc.lookup r.typeName = some s → s.fields.length = r.fields.size →
          (s.fields.all fun f => r.contains f.name) = true → Q s st)
    (made : env.registry.struct? r.typeName = none →
      (env.config.requireRegistration || !env.config.compatible) = false →
        ∀ s, st.adhoc.lookup r.typeName = none → env.registry.adhocStruct env.config r = .ok s →
          Q s { st with adhoc := (r.typeName, s) :: st.adhoc }) :
    Ensures (recordType env r) st Q := by
  unfold recordType
  split
  · rename_i s found
    exact .pure (registered s found)
  · rename_i unknown
    dsimp only
    by_cases refused : (env.config.requireRegistration || !env.config.compatible) = true
    · rw [if_pos refused]
      exact Ensures.bind (Q := fun _ _ => False) (.throw _) fun _ _ never => never.elim
    · rw [if_neg refused]
      have admitted := Bool.eq_false_iff.2 refused
      refine Ensures.bind (Q := fun state st' => state = st ∧ st' = st) ?_ ?_
      · intro state st' run
        cases run
        exact ⟨rfl, rfl⟩
      intro state st₁ same
      rw [same.1, same.2]
      split
      · rename_i s known
        split
        · rename_i whole
          rw [Bool.and_eq_true, decide_eq_true_eq] at whole
          exact .pure (remembered unknown admitted s known whole.1 whole.2)
        · exact .throw _
      · rename_i new
        refine Ensures.bind (Q := fun s st' =>
          env.registry.adhocStruct env.config r = .ok s ∧ st' = st) (.lift fun s built => ⟨built, rfl⟩) ?_
        intro s st₂ built
        rw [built.2]
        refine Ensures.bind (Q := fun _ st' => st' = { st with
          adhoc := (r.typeName, s) :: st.adhoc }) ?_ ?_
        · intro _ st' run
          cases run
          rfl
        rintro _ _ rfl
        exact .pure (made unknown admitted s new built.1)

theorem ensures_recordType {r : Record} (strict : env.config.compatible = false) :
    Ensures (recordType env r) st fun s st' =>
      st' = st ∧ env.registry.struct? r.typeName = some s := by
  have refused : (env.config.requireRegistration || !env.config.compatible) ≠ false := by
    rw [strict, Bool.not_false, Bool.or_true]
    decide
  exact ensures_recordType_cases (fun s found => ⟨rfl, found⟩)
    (fun _ admitted => absurd admitted refused) fun _ admitted => absurd admitted refused

/-- Telling a type leaves the writer as it was, in strict mode, and the type is read back. -/
theorem ensures_typeInfo (strict : env.Strict) (ids : env.Identifies g v) :
    Ensures (typeInfo env g v) st fun p st' =>
      st' = st ∧ env.Announces g v p.2 ∧ Read.Takes (Read.typeInfo env) p.1 p.2 := by
  unfold typeInfo
  split
  · rename_i r isRecord
    refine (ensures_recordType strict.compatible).bind ?_
    rintro s st' ⟨same, found⟩
    have takes := Read.takes_structInfo strict found (ids.record r s isRecord found)
    have built := strict.built.built found
    have plain : s.isCompatible = false := built.kind_eq
    have announced := Environment.Announces.record isRecord found
    rw [plain] at announced ⊢
    cases ident : s.id with
    | some id =>
      rw [ident] at takes
      rw [if_pos (by rw [built.kind, ident]; rfl)]
      exact .pure ⟨same, announced, takes⟩
    | none =>
      rw [ident] at takes
      have kind : s.kind = .namedStruct := by rw [built.kind, ident]; rfl
      rw [if_neg (by rw [kind]; decide), if_pos kind]
      exact .pure ⟨same, announced, takes⟩
  · rename_i name ordinal _
    split
    · rename_i e found
      exact .pure ⟨rfl, .enum found,
        Read.takes_enumInfo strict.sound found (ids.enum name ordinal e rfl found)⟩
    · rename_i unknown
      obtain ⟨noStruct, leads⟩ := ids.unknown name ordinal rfl unknown
      have unregistered : env.registry.named? name = none := by
        simp [Registry.named?, noStruct, unknown]
      split
      · exact .throw _
      · rename_i lenient
        exact .pure ⟨rfl, .unknownEnum unknown,
          Read.takes_unknownEnumInfo (by simpa using lenient) unregistered leads⟩
  · rename_i noRecord
    split
    · rename_i inferred
      obtain ⟨small, builtin⟩ := Graph.isWireBuiltin_of_inferType? inferred
      exact .pure ⟨rfl, .builtin noRecord inferred, Read.takes_builtinInfo small builtin⟩
    · exact .throw _

theorem ensures_typed {payload : WritePayload} {hasType : Bool} {shape : Shape}
    {Q : List UInt8 → WriteState → Prop} (strict : env.Strict)
    (ids : hasType = true → env.Identifies g v)
    (h : ∀ info wire, env.Tells g hasType shape v wire →
      Read.Takes (if hasType then Read.typeInfo env else Read.check (env.declaredType shape)) info
        wire →
      Ensures (payload wire shape v) st fun bytes => Q (info ++ bytes)) :
    Ensures (typed env g payload hasType shape v) st Q := by
  unfold typed
  cases hasType with
  | true =>
    refine (ensures_typeInfo strict (ids rfl)).bind ?_
    rintro p st' ⟨same, announced, takes⟩
    subst same
    exact (h p.1 p.2 (.announced announced) takes).bind fun _ _ hq => .pure hq
  | false =>
    refine Ensures.bind (Q := fun wire st' => st' = st ∧ env.declaredType shape = .ok wire)
      (.lift fun _ declared => ⟨rfl, declared⟩) ?_
    rintro wire st' ⟨same, declared⟩
    subst same
    exact h [] wire (.declared declared) (.check declared)

end Write

end Graphwire
