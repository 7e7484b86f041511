import Graphwire.Proofs.Conforming
import Graphwire.Proofs.Receiving
import Graphwire.Proofs.Registrations

/-!
# Constants that can be written

A constant that passed a registration stands for a value of its field: a built-in value, a member of
an enumeration, or an empty container. Such a value can be written back in the field, in compatible
mode, wherever it may stand at all: a container needs a level to be entered, and where types must be
registered the enumeration of a member has to be.
-/

namespace Graphwire

set_option autoImplicit false

/-! ## What constants come to -/

namespace Constant

/-- What the empty containers are. -/
inductive Vacant : Constant → TypeId → Node → Prop where
  | list : Vacant .emptyList .list (.list [])
  | set : Vacant .emptySet .set (.set [])
  | map : Vacant .emptyMap .map (.map [])

/-- What a constant comes to in a field of a shape: a value of a built-in type, which is the declared
one unless nothing is declared, a member of the enumeration that the shape refers to, or an empty
container. -/
inductive Makes (shape : Shape) : Constant → Template → Prop where
  | scalar {c : Constant} {v : Value} (type : TypeId) {b : Builtin} (layout : type.builtin? = some b)
      (holds : b.Holds v) (fits : shape = .dynamic ∨ shape = .scalar type) : Makes shape c (.ofScalar v)
  | member {name : String} {ordinal : Nat} (named : shape = .named name) :
      Makes shape (.enum ordinal) (.ofScalar (.enum name ordinal))
  | container {c : Constant} {type : TypeId} {n : Node} (vacant : c.Vacant type n)
      (fits : shape = .dynamic ∨ ∀ env : Environment, env.declaredType shape = .ok (.builtin type)) :
      Makes shape c (.ofNode n)

/-- A number is one of the type that it was made for. -/
theorem holds_ofNumber {n : Int} {type : TypeId} {v : Value} (made : ofNumber n type = .ok v) :
    ∃ b, type.builtin? = some b ∧ b.Holds v := by
  unfold ofNumber at made
  dsimp only at made
  split at made
  · rename_i layout
    cases made
    exact ⟨_, layout, .float32 _⟩
  · rename_i layout
    cases made
    exact ⟨_, layout, .float64 _⟩
  · cases fits : Value.ofInt? type n with
    | none =>
      rw [fits] at made
      cases made
    | some u =>
      rw [fits] at made
      cases made
      obtain ⟨m, layout, known, -, rfl⟩ := Value.ofInt?_eq_some_iff.1 fits
      exact ⟨_, known, .int m layout⟩

theorem makes_scalarFor {c : Constant} {type : TypeId} {v : Value} {shape : Shape} {t : Template}
    {b : Builtin} (layout : type.builtin? = some b) (holds : b.Holds v)
    (made : c.scalarFor type v shape = .ok t) : Makes shape c t := by
  unfold scalarFor at made
  split at made
  · rename_i fits
    cases made
    exact .scalar type layout holds fits.symm
  · cases made

theorem makes_number {c : Constant} {n : Int} {type : TypeId} {t : Template}
    (made : (ofNumber n type).map Template.ofScalar = .ok t) : Makes (.scalar type) c t := by
  obtain ⟨v, number, rfl⟩ := map_eq_ok_iff.1 made
  obtain ⟨b, layout, holds⟩ := holds_ofNumber number
  exact .scalar type layout holds (.inr rfl)

theorem makes_integer {c : Constant} {n : Int} {kind : IntKind} {type : TypeId} {layout : IntLayout}
    {e : Error} {t : Template} (known : type.builtin? = some (.int kind layout))
    (made : ((Integer.ofInt? kind n).map fun m => Except.ok (Template.ofScalar (.int m))).getD
      (.error e) = .ok t) : Makes .dynamic c t := by
  cases fits : Integer.ofInt? kind n with
  | none =>
    rw [fits] at made
    cases made
  | some m =>
    rw [fits] at made
    cases made
    obtain ⟨rfl, -⟩ := Integer.ofInt?_eq_some_iff.1 fits
    exact .scalar type known (.int m layout) (.inl rfl)

theorem materialize_float (bits : UInt64) (type : TypeId) :
    (float bits).materialize (.scalar type) =
      if type = .float32 then .ok (.ofScalar (.float32 (narrow bits)))
      else (float bits).scalarFor .float64 (.float64 bits) (.scalar type) := rfl

/-- One case for each kind of constant. -/
theorem makes_of_materialize {c : Constant} {shape : Shape} {t : Template}
    (made : c.materialize shape = .ok t) : Makes shape c t := by
  cases c with
  | bool b => exact makes_scalarFor rfl (.bool b) made
  | int n =>
    cases shape with
    | scalar type => exact makes_number made
    | dynamic => exact makes_integer (show TypeId.varint64.builtin? = _ from rfl) made
    | _ => cases made
  | uint n =>
    cases shape with
    | scalar type => exact makes_number made
    | dynamic => exact makes_integer (show TypeId.varUint64.builtin? = _ from rfl) made
    | _ => cases made
  | float bits =>
    cases shape with
    | scalar type =>
      rw [materialize_float] at made
      split at made
      · rename_i narrower
        cases made
        exact .scalar .float32 rfl (.float32 _) (.inr (congrArg Shape.scalar narrower))
      · exact makes_scalarFor rfl (.float64 bits) made
    | _ => exact makes_scalarFor rfl (.float64 bits) made
  | string s => exact makes_scalarFor rfl (.string s) made
  | binary bytes => exact makes_scalarFor rfl (.binary bytes) made
  | date day => exact makes_scalarFor rfl (.date day) made
  | timestamp t => exact makes_scalarFor rfl (.timestamp t) made
  | duration d => exact makes_scalarFor rfl (.duration d) made
  | enum ordinal =>
    cases shape with
    | named name =>
      cases made
      exact .member rfl
    | _ => cases made
  | emptyList =>
    cases shape with
    | list element =>
      cases made
      exact .container .list (.inr fun _ => rfl)
    | dynamic =>
      cases made
      exact .container .list (.inl rfl)
    | _ => cases made
  | emptySet =>
    cases shape with
    | set element =>
      cases made
      exact .container .set (.inr fun _ => rfl)
    | dynamic =>
      cases made
      exact .container .set (.inl rfl)
    | _ => cases made
  | emptyMap =>
    cases shape with
    | map key value =>
      cases made
      exact .container .map (.inr fun _ => rfl)
    | dynamic =>
      cases made
      exact .container .map (.inl rfl)
    | _ => cases made

/-- Whether types and settings leave room for a constant in a field of a shape: a level to enter for a
container, and for a member of an enumeration that this is registered, if it must be. -/
def HasRoom (env : Environment) (levels : Nat) (shape : Shape) : Constant → Prop
  | .emptyList | .emptySet | .emptyMap => 0 < levels
  | .enum _ => env.config.requireRegistration = true →
      ∃ name, shape = .named name ∧ (env.registry.enum? name).isSome = true
  | _ => True

end Constant

/-! ## Writing what they come to -/

/-- A value of a built-in type has no node and is no member of an enumeration. -/
theorem Builtin.Holds.plain {b : Builtin} {v : Value} (holds : b.Holds v) :
    v.handle? = none ∧ v.isNull = false ∧ (∀ offset, v.shift offset = v) ∧
      ∀ name ordinal, v ≠ .enum name ordinal := by
  cases holds <;> exact ⟨rfl, rfl, fun _ => rfl, fun _ _ same => by cases same⟩

namespace Write

variable {env : Environment} {g : Graph} {levels : Nat} {shape : Shape}

theorem payload_eq_layer (env : Environment) (g : Graph) (levels : Nat) :
    ∃ inner, payload env g levels = layer env g inner ∧ (0 < levels → inner.isSome = true) := by
  cases levels with
  | zero => exact ⟨none, rfl, fun room => absurd room (Nat.lt_irrefl 0)⟩
  | succ levels => exact ⟨_, rfl, fun _ => rfl⟩

/-- A value of a built-in type is written, at any level. -/
theorem writes_builtin {type : TypeId} {b : Builtin} {v : Value} (layout : type.builtin? = some b)
    (holds : b.Holds v) : Writes (payload env g levels (.builtin type) shape v) := by
  obtain ⟨inner, same, -⟩ := payload_eq_layer env g levels
  obtain ⟨bytes, encoded⟩ := g.encodeScalar_ok layout holds
  rw [same]
  simp only [layer, isContainer_of_builtin? layout, Bool.false_eq_true, if_false]
  exact Works.lift ⟨bytes, encoded, trivial⟩

/-- An empty container is written where a level is left. -/
theorem writes_vacant {c : Constant} {type : TypeId} {n : Node} (vacant : c.Vacant type n)
    {h : Handle} (node : g.node h = n) (room : 0 < levels) :
    Writes (payload env g levels (.builtin type) shape (.handle h)) := by
  obtain ⟨inner, same, left⟩ := payload_eq_layer env g levels
  obtain ⟨deeper, rfl⟩ := Option.isSome_iff_exists.1 (left room)
  have found : g.nodeOf? (.handle h) = some n := congrArg some node
  rw [same]
  cases vacant <;>
    simp only [layer, container, found, TypeId.isContainer] <;>
    exact .pure trivial

/-- The type of a value that is neither a record nor a member of an enumeration is inferred. -/
theorem works_typeInfo_inferred {v : Value} {type : TypeId} (noRecord : g.asRecord? v = none)
    (noEnum : ∀ name ordinal, v ≠ .enum name ordinal) (inferred : g.inferType? v = some type) :
    Works (typeInfo env g v) fun i => i.2 = .builtin type := by
  unfold typeInfo
  split
  · rename_i r isRecord
    rw [noRecord] at isRecord
    cases isRecord
  · rename_i name ordinal _
    exact absurd rfl (noEnum name ordinal)
  · rw [inferred]
    exact .pure rfl

/-- The type of a member can be told if its enumeration is registered, or need not be. -/
theorem works_typeInfo_member {name : String} {ordinal : Nat}
    (member : ∀ e, env.registry.enum? name = some e → ordinal < e.members.length)
    (room : env.config.requireRegistration = true → (env.registry.enum? name).isSome = true) :
    Works (typeInfo env g (.enum name ordinal)) fun i =>
      ∃ typeName members, i.2 = .enum typeName members ∧ members.all (ordinal < ·) = true := by
  unfold typeInfo
  dsimp only [Graph.asRecord?, Graph.nodeOf?, Value.handle?, Option.map_none]
  split
  · rename_i e found
    exact .pure ⟨_, _, rfl, by simpa using member e found⟩
  · rename_i unknown
    have free : ¬env.config.requireRegistration = true := fun required => by
      rw [unknown] at room
      cases room required
    rw [if_neg free]
    exact .pure ⟨_, _, rfl, rfl⟩

/-- A value that has no null to mark is written with every marker if it is without one. -/
theorem writes_marked {payload : WritePayload} {mode : RefMode} {hasType : Bool} {v : Value}
    (present : v.isNull = false) (writes : Writes (typed env g payload hasType shape v)) :
    Writes (marked env g payload mode hasType shape v) := by
  unfold marked
  cases mode with
  | tracking =>
    refine Works.bind (Q := fun _ => True) (fun ws => ⟨_, _, rfl, trivial⟩) fun marking _ => ?_
    obtain ⟨complete, marker⟩ := marking
    cases complete with
    | true => exact .pure trivial
    | false => exact writes.bind fun _ _ => .pure trivial
  | nullOnly =>
    dsimp only
    rw [if_neg (by simp [present])]
    exact writes.bind fun _ _ => .pure trivial
  | none =>
    dsimp only
    rw [if_neg (by simp [present])]
    exact writes

/-- A value that is neither a record nor a member of an enumeration is written with its type if it is
written as the type that is inferred. -/
theorem writes_inferred {payload : WritePayload} {v : Value} {type : TypeId}
    (noRecord : g.asRecord? v = none) (noEnum : ∀ name ordinal, v ≠ .enum name ordinal)
    (inferred : g.inferType? v = some type) (writes : Writes (payload (.builtin type) shape v)) :
    Writes (typed env g payload true shape v) := by
  unfold typed
  refine (works_typeInfo_inferred noRecord noEnum inferred).bind fun i same => ?_
  obtain ⟨info, wire⟩ := i
  cases same
  exact writes.bind fun _ _ => .pure trivial

theorem writes_declared {payload : WritePayload} {v : Value} {wire : WireType}
    (declared : env.declaredType shape = .ok wire) (writes : Writes (payload wire shape v)) :
    Writes (typed env g payload false shape v) := by
  unfold typed
  rw [declared]
  exact writes

/-- What a constant comes to is written with its type, or without it where its shape tells the type. -/
theorem writes_typed_of_makes {c : Constant} {t : Template} (makes : c.Makes shape t) {offset : Nat}
    (stands : t.StandsAt g offset) (room : c.HasRoom env levels shape)
    (member : ∀ ordinal name e, c = .enum ordinal → shape = .named name →
      env.registry.enum? name = some e → ordinal < e.members.length)
    {hasType : Bool} (told : shape = .dynamic ∨ shape.isNamed = true → hasType = true) :
    (t.root.shift offset).isNull = false ∧
      Writes (typed env g (payload env g levels) hasType shape (t.root.shift offset)) := by
  cases makes with
  | @scalar _ v type b layout holds fits =>
    obtain ⟨scalar, present, fixed, noEnum⟩ := holds.plain
    have noRecord : g.asRecord? v = none := by
      simp only [Graph.asRecord?, Graph.nodeOf?, scalar, Option.map_none]
    simp only [Template.ofScalar, fixed]
    refine ⟨present, ?_⟩
    cases hasType with
    | true =>
      obtain ⟨type', inferred, describes⟩ := (Graph.Unfolds.leaf (g := g) scalar).inferType present
        noEnum noRecord
      refine writes_inferred noRecord noEnum inferred ?_
      rcases describes with ⟨b', v', layout', same, holds'⟩ | ⟨kind, -, same⟩
      · cases same
        exact writes_builtin layout' holds'
      · cases same
    | false =>
      rcases fits with rfl | rfl
      · cases told (.inl rfl)
      · exact writes_declared rfl (writes_builtin layout holds)
  | @member name ordinal named =>
    cases told (.inr (by rw [named]; rfl))
    refine ⟨rfl, ?_⟩
    have registered : env.config.requireRegistration = true →
        (env.registry.enum? name).isSome = true := fun required => by
      obtain ⟨name', named', known⟩ := room required
      rw [named] at named'
      cases named'
      exact known
    refine (works_typeInfo_member (fun e => member ordinal name e rfl named) registered).bind
      fun i told => ?_
    obtain ⟨info, wire⟩ := i
    obtain ⟨typeName, members, same, fits⟩ := told
    cases same
    obtain ⟨inner, level, -⟩ := payload_eq_layer env g levels
    rw [level]
    refine Works.bind (Q := fun _ => True) ?_ fun _ _ => .pure trivial
    show Works (if members.all (ordinal < ·) then _ else _) _
    rw [if_pos fits]
    exact .pure trivial
  | @container _ type n vacant fits =>
    have node : g.node ⟨0 + offset⟩ = n := by
      have copy := stands 0 Nat.zero_lt_one
      rw [Nat.add_comm 0 offset, copy]
      cases vacant <;> rfl
    have left : 0 < levels := by cases vacant <;> exact room
    refine ⟨rfl, ?_⟩
    have writes : Writes (payload env g levels (.builtin type) shape (.handle ⟨0 + offset⟩)) :=
      writes_vacant vacant node left
    cases hasType with
    | true =>
      refine writes_inferred ?_ (fun _ _ same => by cases same) ?_ writes
      · simp only [Graph.asRecord?, Graph.nodeOf?, Template.ofNode, Value.shift, Value.handle?,
          Option.map_some, node]
        cases vacant <;> rfl
      · simp only [Graph.inferType?, Template.ofNode, Value.shift, node]
        cases vacant <;> rfl
    | false =>
      rcases fits with rfl | declared
      · cases told (.inl rfl)
      · exact writes_declared (declared env) writes

/-- A value of fixed width is a number or a truth value of the field's type already. -/
theorem fixedField_of_holds {f : Field} {type : TypeId} {b : Builtin} {r : Record}
    (known : f.type = type) (layout : type.builtin? = some b) (holds : b.Holds (r.value f.name))
    (fixed : b = .bool ∨ (∃ kind layout, b = .int kind layout) ∨ b = .float32 ∨ b = .float64) :
    ∃ bytes, fixedField g r f = .ok bytes := by
  obtain ⟨-, present, -⟩ := holds.plain
  have coerced : g.coerce f.type (r.value f.name) = .ok (r.value f.name) := by
    rw [known]
    generalize r.value f.name = v at holds
    cases holds with
    | int n shape =>
      have same : Value.ofInt? type n.val = some (.int n) :=
        Value.ofInt?_eq_some_iff.2 ⟨n, shape, layout, rfl, rfl⟩
      simp only [Graph.coerce, layout, Value.asInt?, same]
      rfl
    | bool | float32 | float64 => simp only [Graph.coerce, layout]
    | _ => rcases fixed with other | ⟨_, _, other⟩ | other | other <;> cases other
  unfold fixedField
  dsimp only
  rw [if_neg (by simp [present])]
  exact ⟨_, Graphwire.bind_eq_ok_iff.2 ⟨_, coerced, rfl⟩⟩

/-- A field of fixed width holds a constant that can be part of a run. -/
theorem fixedField_of_makes {c : Constant} {f : Field} {t : Template} (makes : c.Makes f.shape t)
    (resolved : ∀ type, f.shape = .scalar type → f.type = type) (fixed : f.fixedWidth?.isSome = true)
    {r : Record} {offset : Nat} (value : r.value f.name = t.root.shift offset) :
    ∃ bytes, fixedField g r f = .ok bytes := by
  obtain ⟨type, b, shape, layout, number⟩ : ∃ type b, f.shape = .scalar type ∧ type.builtin? = some b ∧
      (b = .bool ∨ (∃ kind layout, b = .int kind layout) ∨ b = .float32 ∨ b = .float64) := by
    unfold Field.fixedWidth? at fixed
    split at fixed
    · rename_i type shape
      refine ⟨type, ?_⟩
      split at fixed
      · exact ⟨_, shape, ‹_›, .inl rfl⟩
      · exact ⟨_, shape, ‹_›, .inr (.inl ⟨_, _, rfl⟩)⟩
      · exact ⟨_, shape, ‹_›, .inr (.inr (.inl rfl))⟩
      · exact ⟨_, shape, ‹_›, .inr (.inr (.inr rfl))⟩
      · cases fixed
    · cases fixed
  rw [shape] at makes
  cases makes with
  | @scalar _ v type' b' layout' holds fits =>
    cases fits with
    | inl dynamic => cases dynamic
    | inr same =>
      cases same
      cases layout.symm.trans layout'
      rw [Template.ofScalar, holds.plain.2.2.1] at value
      exact fixedField_of_holds (resolved type shape) layout (value ▸ holds) number
  | member named => cases named
  | container vacant fits =>
    rcases fits with dynamic | declared
    · cases dynamic
    · cases declared ⟨.empty, .standard⟩
      cases vacant <;> cases layout

end Write

namespace Registry

/-- The fields of a struct that is built have passed the check of their defaults. -/
theorem checkDefault_of_build {r : Registry} {config : Config} {name : String} {entry : StructEntry}
    {s : StructType} (built : r.build config name entry = .ok s) {f : Field} (member : f ∈ s.fields) :
    r.checkDefault name config.compatible f = .ok () := by
  obtain ⟨chain, -, built⟩ := bind_eq_ok_iff.1 built
  obtain ⟨_, -, built⟩ := bind_eq_ok_iff.1 built
  obtain ⟨_, checked, built⟩ := bind_eq_ok_iff.1 built
  rw [(StructType.fields_of_build built).1] at member
  exact (checkFields_eq_ok_iff.1 checked).1 f ((canonicalOrder_perm _).mem_iff.1 member)

/-- A constant that passed stands for a value, and for a member of the enumeration if that is
registered. -/
theorem constant_of_checkDefault {r : Registry} {owner : String} {compatible : Bool} {f : Field}
    (checked : r.checkDefault owner compatible f = .ok ()) {c : Constant}
    (constant : f.constant = some c) :
    (∃ t, c.materialize f.shape = .ok t) ∧ ∀ ordinal name e, c = .enum ordinal →
      f.shape = .named name → r.enum? name = some e → ordinal < e.members.length := by
  unfold checkDefault at checked
  rw [constant] at checked
  obtain ⟨t, made, checked⟩ := bind_eq_ok_iff.1 checked
  obtain ⟨_, passed, -⟩ := bind_eq_ok_iff.1 checked
  refine ⟨⟨t, made⟩, fun ordinal name e same named known => ?_⟩
  unfold checkOrdinal at passed
  simp only [constant, same, named, known] at passed
  by_contra other
  rw [if_neg other] at passed
  cases passed

end Registry

namespace Instance

/-- The constants of a struct that is registered in compatible mode are usable. Each stands for a
value that can be made whenever it is needed, and wherever there is room for this value a record that
holds it in the field can be written as far as the field goes, in a run as well as alone. -/
theorem Reachable.constant_usable {i : Instance} (reachable : i.Reachable) {name : String}
    {s : StructType} (found : i.registry.struct? name = some s) (compatible : s.isCompatible = true)
    {f : Field} (member : f ∈ s.fields) {c : Constant} (constant : f.constant = some c) :
    ∃ t, c.materialize f.shape = .ok t ∧ f.missingValue = .ok (some t) ∧
      ∀ (g : Graph) (r : Record) (offset levels : Nat), t.StandsAt g offset →
        r.value f.name = t.root.shift offset → c.HasRoom i.environment levels f.shape →
        (∀ ws, ∃ bytes ws', Write.field i.environment g (Write.payload i.environment g levels) s r f ws =
          .ok (bytes, ws')) ∧
        (f.fixedWidth?.isSome = true → ∃ bytes, Write.fixedField g r f = .ok bytes) := by
  obtain ⟨config, d, -, declared, built⟩ := reachable.assembled.build found
  have resolved := (Registry.builds_built config _ _ _ _ built).resolved f member
  obtain ⟨⟨t, made⟩, ordinals⟩ :=
    Registry.constant_of_checkDefault (Registry.checkDefault_of_build built member) constant
  have makes := Constant.makes_of_materialize made
  refine ⟨t, made, by simp only [Field.missingValue, constant, made]; rfl,
    fun g r offset levels stands value room => ⟨?_, fun fixed =>
      Write.fixedField_of_makes makes resolved.scalarType fixed value⟩⟩
  have told : f.shape = .dynamic ∨ f.shape.isNamed = true → f.hasTypeInfo s.isCompatible = true := by
    rintro (shape | named)
    · rw [Field.hasTypeInfo, resolved.dynamic shape, Bool.true_or]
    · rw [Field.hasTypeInfo, compatible, named, Bool.true_and, Bool.or_true]
  obtain ⟨present, writes⟩ := Write.writes_typed_of_makes makes stands room ordinals told
  rw [← value] at present writes
  have field : Write.Writes (Write.field i.environment g (Write.payload i.environment g levels) s r f) := by
    unfold Write.field
    dsimp only
    rw [if_neg (by simp [present])]
    exact Write.writes_marked present writes
  intro ws
  obtain ⟨bytes, ws', run, -⟩ := field ws
  exact ⟨bytes, ws', run⟩

/-- A struct with one field, which has a constant default. -/
def defaulting (shape : Shape) (c : Constant) : StructDecl :=
  ⟨.ofNames "demo" "T", none, false, [{ FieldDecl.ofShape "x" shape with constant := some c }]⟩

/-- A record of the struct. -/
def defaulted (v : Value) : Record := (Record.ofType "demo.T").set "x" v

/-- An instance in compatible mode that knows the colours and a struct with one of them. -/
def painted : Instance :=
  [.setCompatible true, .registerEnum none ⟨.ofNames "demo" "Colour", ["RED", "GREEN"]⟩,
    .registerStruct (some 1) (defaulting (.named "demo.Colour") (.enum 1))].foldl perform fresh

/-- The second colour can be written as the value of the field, with no level left. -/
theorem constant_usable_painted : ∃ s f, painted.registry.struct? "demo.T" = some s ∧
    s.isCompatible = true ∧ f ∈ s.fields ∧ f.constant = some (.enum 1) ∧
      ∀ ws, ∃ bytes ws', Write.field painted.environment .empty
        (Write.payload painted.environment .empty 0) s (defaulted (.enum "demo.Colour" 1)) f ws =
          .ok (bytes, ws') := by
  let s := (painted.registry.struct? "demo.T").get (by decide +kernel)
  let f := s.fields.head (by decide +kernel)
  have found : painted.registry.struct? "demo.T" = some s := (Option.some_get _).symm
  have compatible : s.isCompatible = true := by decide +kernel
  have constant : f.constant = some (.enum 1) := by decide +kernel
  have shape : f.shape = .named "demo.Colour" := by decide +kernel
  have name : f.name = "x" := by decide +kernel
  have member : f ∈ s.fields := List.head_mem _
  have known : (painted.registry.enum? "demo.Colour").isSome = true := by decide +kernel
  obtain ⟨t, made, -, writes⟩ :=
    Reachable.constant_usable ⟨_, rfl⟩ found compatible member constant
  rw [shape] at made
  cases made
  refine ⟨s, f, found, compatible, member, constant, ?_⟩
  refine (writes .empty (defaulted (.enum "demo.Colour" 1)) 0 0 (fun i lt => ?_) ?_ fun _ => ?_).1
  · exact absurd lt (Nat.not_lt_zero i)
  · rw [name]
    rfl
  · exact ⟨"demo.Colour", shape, known⟩

/-- An instance that knows the struct, but not the colours. -/
def colourless : Instance :=
  [.setCompatible true, .registerStruct (some 1) (defaulting (.named "demo.Colour") (.enum 1))].foldl
    perform fresh

/-- An instance in compatible mode that knows a struct with a list, and enters one level. -/
def flat : Instance :=
  [.setCompatible true, .setMaxDepth 1,
    .registerStruct (some 1) (defaulting (.list .dynamic) .emptyList)].foldl perform fresh

/-- A member of an enumeration that is not registered, and a list where no level is left, are the
values of defaults but cannot be written. -/
theorem constant_not_always_usable :
    (colourless.Reachable ∧ (colourless.registry.struct? "demo.T").map (fun s =>
        (s.isCompatible, s.fields.map fun f => (f.constant, f.missingValue))) =
      some (true, [(some (.enum 1), .ok (some (.ofScalar (.enum "demo.Colour" 1))))]) ∧
      colourless.serialize ⟨#[.record (defaulted (.enum "demo.Colour" 1))]⟩ (.handle ⟨0⟩) =
        .error (.enumUnregistered "demo.Colour")) ∧
    flat.Reachable ∧ (flat.registry.struct? "demo.T").map (fun s =>
        (s.isCompatible, s.fields.map fun f => (f.constant, f.missingValue))) =
      some (true, [(some .emptyList, .ok (some (.ofNode (.list []))))]) ∧
      flat.serialize ⟨#[.record (defaulted (.handle ⟨1⟩)), .list []]⟩ (.handle ⟨0⟩) =
        .error (.depthExceeded 1) := by
  refine ⟨⟨⟨_, rfl⟩, ?_, ?_⟩, ⟨_, rfl⟩, ?_, ?_⟩
  all_goals decide +kernel

end Instance

end Graphwire
