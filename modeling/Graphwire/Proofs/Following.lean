import Graphwire.Proofs.Levels
import Graphwire.Proofs.Announcements
import Graphwire.Proofs.Peers

/-!
# Readers that follow writers

A reader follows what was written when it takes exactly the bytes, or refuses for a reason that has
nothing to do with levels. A strict reader with the writer's types follows the writer down and up
again: what the writer entered it enters, and what was refused on the way is a size or a name. So it
never runs out of levels that the writer had. It can do so only where the names in front of a record
lead to another struct than the one that was written.
-/

namespace Graphwire

set_option autoImplicit false

/-! ## Following -/

namespace Read

variable {α β : Type} {Q : α → Prop} {R : β → Prop} {bytes front back : List UInt8}

/-- Whether a reader takes the bytes, and nothing after them, for a result of which a condition holds,
or refuses them for another reason than that no level is left. -/
def Follows (m : Read α) (bytes : List UInt8) (Q : α → Prop) : Prop :=
  ∀ (st : ReadState) rest, st.reader.rest = bytes ++ rest →
    match m st with
    | .ok a st' => st'.reader.rest = rest ∧ Q a
    | .error e _ => e.kind ≠ .depthExceed

theorem Takes.follows {m : Read α} {a : α} (hm : Takes m bytes a) (h : Q a) : Follows m bytes Q := by
  intro st rest hr
  obtain ⟨p, run⟩ := hm st rest hr
  rw [run]
  exact ⟨rfl, h⟩

theorem Follows.pure {a : α} (h : Q a) : Follows (pure a) [] Q := (Takes.pure a).follows h

theorem Follows.throw {e : Error} (other : e.kind ≠ .depthExceed) : Follows (throw e) bytes Q :=
  fun _ _ _ => other

theorem Follows.bind {m : Read α} {f : α → Read β} (hm : Follows m front Q)
    (hf : ∀ a, Q a → Follows (f a) back R) : Follows (m >>= f) (front ++ back) R := by
  intro st rest hr
  have first := hm st (back ++ rest) (by rw [hr, List.append_assoc])
  rw [bind_apply]
  cases run : m st with
  | ok a st' =>
    rw [run] at first
    exact hf a first.2 st' rest first.1
  | error e st' =>
    rw [run] at first
    exact first

/-- Then something that reads nothing. -/
theorem Follows.then {m : Read α} {f : α → Read β} (hm : Follows m bytes Q)
    (hf : ∀ a, Q a → Follows (f a) [] R) : Follows (m >>= f) bytes R := by
  rw [← List.append_nil bytes]
  exact hm.bind hf

/-- First something that reads nothing. -/
theorem Follows.after {m : Read α} {f : α → Read β} (hm : Follows m [] Q)
    (hf : ∀ a, Q a → Follows (f a) bytes R) : Follows (m >>= f) bytes R := hm.bind hf

theorem Follows.check {x : Except Error α} (accepted : ∀ a, x = .ok a → Q a)
    (refused : ∀ e, x = .error e → e.kind ≠ .depthExceed) : Follows (check x) [] Q := by
  cases x with
  | ok a => exact .pure (accepted a rfl)
  | error e => exact .throw (refused e rfl)

theorem Follows.kind_of_error {m : Read α} (h : Follows m bytes Q) {st st' : ReadState}
    {rest : List UInt8} (stands : st.reader.rest = bytes ++ rest) {e : Error}
    (run : m st = .error e st') : e.kind ≠ .depthExceed := by
  have after := h st rest stands
  rw [run] at after
  exact after

/-- A step that reads nothing and is never refused. -/
theorem Follows.silent {m : Read α}
    (run : ∀ st, ∃ a st', m st = .ok a st' ∧ st'.reader = st.reader) :
    Follows m [] fun _ => True := by
  intro st rest hr
  obtain ⟨a, st', run, same⟩ := run st
  rw [run]
  exact ⟨same ▸ hr, trivial⟩

theorem follows_alloc (n : Node) : Follows (alloc n) [] fun _ => True :=
  .silent fun _ => ⟨_, _, rfl, rfl⟩

theorem follows_setNode (h : Handle) (n : Node) : Follows (setNode h n) [] fun _ => True :=
  .silent fun _ => ⟨_, _, rfl, rfl⟩

theorem follows_publish (slot : Option Nat) (v : Value) :
    Follows (publish slot v) [] fun _ => True :=
  .silent fun _ => by cases slot <;> exact ⟨_, _, rfl, rfl⟩

theorem follows_setField (h : Handle) (name : String) (v : Value) :
    Follows (setField h name v) [] fun _ => True :=
  .silent fun st => ⟨_, _, setField_apply h name v st, rfl⟩

theorem follows_noteNull (h : Handle) (name : String) :
    Follows (noteNull h name) [] fun _ => True := .silent fun _ => ⟨_, _, rfl, rfl⟩

theorem follows_reserve : Follows reserve [] fun _ => True := .silent fun _ => ⟨_, _, rfl, rfl⟩

theorem follows_resolve (number : Nat) : Follows (resolve number) [] fun _ => True := by
  have slots (slots : Slots) : Follows (Read.check (slots.resolve number)) [] fun _ => True := by
    refine .check (fun _ _ => trivial) fun e refused same => ?_
    unfold Slots.resolve at refused
    split at refused <;> cases refused <;> cases same
  exact fun st rest hr => slots st.slots st rest hr

theorem follows_limit (limits : SizeLimits) (kind : LimitKind) (size : Nat) :
    Follows (Read.check (limits.check kind size)) [] fun _ => True := by
  refine .check (fun _ _ => trivial) fun e refused same => ?_
  unfold SizeLimits.check at refused
  split at refused
  · split at refused
    · cases refused
      cases same
    · cases refused
  · cases refused

/-! ## Scalars -/

theorem takes_varuint32 (n : Nat) :
    Takes (decode Decode.varuint32) (Encode.varuint32 n) (n % 2 ^ 32) := by
  have small : n % 2 ^ 32 < 2 ^ 32 := Nat.mod_lt _ (by decide)
  have same : Encode.varuint32 n = Encode.varuint32 (n % 2 ^ 32) := by
    simp only [Encode.varuint32, Nat.mod_mod]
  rw [same]
  exact .decode (Decode.yields_varuint32 small)

theorem follows_text {limits : SizeLimits} {s : String} (short : (Utf8.encode s).length < 2 ^ 62) :
    Follows (text limits) (Encode.text s) (· = s) :=
  ((Takes.decode (Decode.yields_textHeader short)).follows (Q := (· = _)) rfl).bind fun _ header => by
    subst header
    exact (follows_limit _ _ _).after fun _ _ =>
      (Takes.decode (Decode.yields_textPayload s)).follows rfl

theorem follows_scalar {limits : SizeLimits} {g : Graph} {t : TypeId} {v : Value}
    {bytes : List UInt8} (h : g.encodeScalar t v = .ok bytes) (short : v.Short) :
    Follows (scalar limits t) bytes fun _ => True := by
  unfold Graph.encodeScalar at h
  split at h
  · rename_i ht
    cases h
    simp only [scalar, ht]
    rw [map_eq_pure_bind]
    exact (follows_text short).then fun _ _ => .pure trivial
  · rename_i ht
    cases h
    simp only [scalar, ht]
    refine ((Takes.decode (Decode.yields_varuint32 short)).follows (Q := (· = _)) rfl).bind ?_
    rintro _ rfl
    exact (follows_limit _ _ _).after fun _ _ =>
      ((Takes.decode (Decode.yields_bytes _)).follows (Q := fun _ => True) trivial).then
        fun _ _ => .pure trivial
  · rename_i ht
    simp only [scalar, ht]
    exact (Takes.decode (Decode.yields_day h)).follows trivial
  · rename_i ht
    simp only [scalar, ht]
    exact (Takes.decode (Decode.yields_instant h)).follows trivial
  · rename_i ht
    cases h
    simp only [scalar, ht]
    exact (Takes.decode (Decode.yields_span _)).follows trivial
  · cases h
  · cases h
  · cases h
  · cases h
  · cases h
  · exact (takes_coerced h).follows trivial

end Read

/-! ## Types -/

/-- Whether a reader that expects one type follows what was written as another one: as the same, or
both as members of enumerations. -/
inductive WireType.Like : WireType → WireType → Prop where
  | builtin (t : TypeId) : Like (.builtin t) (.builtin t)
  | struct {s : StructType} (version : -2 ^ 31 ≤ s.version ∧ s.version < 2 ^ 31) (strict : Bool) :
      Like (.struct s strict) (.struct s strict)
  | enum (typeName typeName' : String) (members members' : Option Nat) :
      Like (.enum typeName members) (.enum typeName' members')

/-- Whether what is told of the registered types can be written and is not mistaken for something
else: identifiers have 32 bits, and the two names in front of a record lead to no other struct. -/
structure Registry.Unmistakable (types : Registry) : Prop where
  ids : ∀ name id, (name, some id) ∈ types.types → id < 2 ^ 32
  names : ∀ x ∈ types.types, (Utf8.encode x.1).length < 2 ^ 62
  structs : ∀ name s t, types.struct? name = some s → s.id = none →
    types.struct? (qualify s.package s.typeName) = some t → t = s

/-- Only a name that starts with a dot can lead to another struct. -/
theorem Registry.unmistakable_of_noDot {types : Registry} {compatible trackRef : Bool}
    (built : types.BuiltFor compatible trackRef)
    (ids : ∀ name id, (name, some id) ∈ types.types → id < 2 ^ 32)
    (names : ∀ x ∈ types.types, (Utf8.encode x.1).length < 2 ^ 62)
    (noDot : ∀ name, (name, none) ∈ types.types → name.toList.head? ≠ some '.') :
    types.Unmistakable := by
  refine ⟨ids, names, fun name s t found ident led => ?_⟩
  have struct := built.built found
  have member := built.mem_types found
  rw [ident] at member
  have whole := qualify_splitQualified (noDot name member)
  rw [struct.parts] at whole
  rw [whole, found] at led
  exact (Option.some.inj led).symm

/-- The parts of a name are not longer than the name. -/
theorem length_splitQualified (name : String) :
    (Utf8.encode (splitQualified name).1).length ≤ (Utf8.encode name).length ∧
      (Utf8.encode (splitQualified name).2).length ≤ (Utf8.encode name).length := by
  rcases splitQualified_cases name with ⟨none, whole⟩ | whole
  · rw [none, whole]
    exact ⟨by simp [Utf8.encode], Nat.le_refl _⟩
  · have sum := congrArg (fun s => (Utf8.encode s).length) whole
    simp only [Utf8.length_encode_append] at sum
    omega

namespace Read

variable {env : Environment}

theorem kind_of_referredType {named : Option NamedType} {name : String} {lenient : Bool} {e : Error}
    (h : referredType named name lenient = .error e) : e.kind ≠ .depthExceed := by
  intro same
  unfold referredType at h
  split at h
  · split at h <;> cases h
    cases same
  · cases h
  · split at h <;> cases h
    cases same

theorem kind_of_checkKind {kind : TypeId} {wire : WireType} {e : Error}
    (h : checkKind kind wire = .error e) : e.kind ≠ .depthExceed := by
  intro same
  unfold checkKind at h
  split at h
  · split at h <;> cases h
    cases same
  · split at h <;> cases h
    cases same
  · cases h

/-- Where an enumeration was announced nothing else is let through. -/
theorem enum_of_checkKind {kind : TypeId} (isEnum : kind.isEnum = true) {named : Option NamedType}
    {name : String} {lenient : Bool} {wire wire' : WireType}
    (referred : referredType named name lenient = .ok wire) (checked : checkKind kind wire = .ok wire') :
    ∃ typeName members, wire' = .enum typeName members := by
  unfold referredType at referred
  split at referred
  · split at referred <;> cases referred
    unfold checkKind at checked
    rw [isEnum] at checked
    cases checked
  · cases referred
    unfold checkKind at checked
    dsimp only [EnumType.wire] at checked
    split at checked <;> cases checked
    exact ⟨_, _, rfl⟩
  · split at referred <;> cases referred
    unfold checkKind at checked
    dsimp only at checked
    split at checked <;> cases checked
    exact ⟨_, _, rfl⟩

theorem follows_referred {kind : TypeId} {named : Option NamedType} {name : String} {lenient : Bool}
    {Q : WireType → Prop}
    (h : ∀ wire wire', referredType named name lenient = .ok wire → checkKind kind wire = .ok wire' →
      Q wire') :
    Follows (do
      let wire ← check (referredType named name lenient)
      check (checkKind kind wire)) [] Q :=
  (Follows.check (Q := fun wire => referredType named name lenient = .ok wire) (fun _ same => same)
    fun _ => kind_of_referredType).then fun wire referred =>
      .check (fun wire' checked => h wire wire' referred checked) fun _ => kind_of_checkKind

/-- A type that is told by its identifier. -/
theorem follows_idInfo {kind : TypeId} (byId : kind = .struct ∨ kind = .enum) {id : Nat}
    {Q : WireType → Prop}
    (h : ∀ lenient wire wire', referredType (env.registry.byId? (id % 2 ^ 32)) s!"type#{id % 2 ^ 32}"
      lenient = .ok wire → checkKind kind wire = .ok wire' → Q wire') :
    Follows (typeInfo env) (kind.encode ++ Encode.varuint32 id) Q := by
  have code : kind.code < 256 := by rcases byId with rfl | rfl <;> decide
  refine ((takes_kind code).follows (Q := (· = _)) rfl).bind ?_
  rintro _ rfl
  have byId : (⟨kind.code⟩ : TypeId) = .struct ∨ (⟨kind.code⟩ : TypeId) = .enum := byId
  dsimp only
  rw [if_pos byId]
  refine ((takes_varuint32 id).follows (Q := (· = _)) rfl).then ?_
  rintro _ rfl
  exact follows_referred fun wire wire' => h _ wire wire'

/-- A type that is told by two names. -/
theorem follows_namesInfo {kind : TypeId} (byName : kind = .namedStruct ∨ kind = .namedEnum)
    {package typeName : String} (shortPackage : (Utf8.encode package).length < 2 ^ 62)
    (shortName : (Utf8.encode typeName).length < 2 ^ 62) {Q : WireType → Prop}
    (h : ∀ lenient wire wire', referredType (env.registry.named? (qualify package typeName))
      (qualify package typeName) lenient = .ok wire → checkKind kind wire = .ok wire' → Q wire') :
    Follows (typeInfo env) (kind.encode ++ Write.names package typeName) Q := by
  have code : kind.code < 256 := by rcases byName with rfl | rfl <;> decide
  refine ((takes_kind code).follows (Q := (· = _)) rfl).bind ?_
  rintro _ rfl
  have other : ¬((⟨kind.code⟩ : TypeId) = .struct ∨ (⟨kind.code⟩ : TypeId) = .enum) := by
    rcases byName with rfl | rfl <;> decide
  have byName : (⟨kind.code⟩ : TypeId) = .namedStruct ∨ (⟨kind.code⟩ : TypeId) = .namedEnum := byName
  dsimp only
  rw [if_neg other, if_pos byName]
  refine (follows_text shortPackage).bind ?_
  rintro _ rfl
  refine (follows_text shortName).then ?_
  rintro _ rfl
  exact follows_referred fun wire wire' => h _ wire wire'

/-- What is told of a struct leads to it. -/
theorem follows_structInfo (strict : env.Strict) (clear : env.registry.Unmistakable) {name : String}
    {s : StructType} (found : env.registry.struct? name = some s) :
    Follows (typeInfo env) (s.kind.encode ++ s.id.elim (Write.names s.package s.typeName)
      Encode.varuint32) (WireType.Like (.struct s true)) := by
  have built := strict.built.built found
  have plain : s.isCompatible = false := built.kind_eq
  have member := strict.built.mem_types found
  have like {kind : TypeId} (struct : kind.isEnum = false) {named : Option NamedType}
      (only : ∀ t, named = some (.struct t) → t = s) (checks : kind = .struct ∨ kind = .namedStruct)
      {text : String} {lenient : Bool} {wire wire' : WireType}
      (referred : referredType named text lenient = .ok wire)
      (checked : checkKind kind wire = .ok wire') : WireType.Like (.struct s true) wire' := by
    unfold referredType at referred
    split at referred
    · rename_i t
      rw [only t rfl, plain] at referred
      cases referred
      rw [checkKind, struct] at checked
      cases checked
      exact .struct built.version true
    · cases referred
      simp only [EnumType.wire, checkKind, if_pos checks] at checked
      cases checked
    · split at referred <;> cases referred
      simp only [checkKind, if_pos checks] at checked
      cases checked
  cases ident : s.id with
  | some id =>
    rw [ident] at member
    have kind : s.kind = .struct := by rw [built.kind, ident]; rfl
    rw [kind]
    refine follows_idInfo (.inl rfl) fun lenient wire wire' referred checked => ?_
    rw [Nat.mod_eq_of_lt (clear.ids _ _ member), strict.sound.byId?_struct strict.built found ident]
      at referred
    exact like rfl (fun t same => by cases same; rfl) (.inl rfl) referred checked
  | none =>
    have short := clear.names _ member
    have parts := length_splitQualified name
    rw [built.parts] at parts
    have kind : s.kind = .namedStruct := by rw [built.kind, ident]; rfl
    rw [kind]
    refine follows_namesInfo (.inl rfl) (Nat.lt_of_le_of_lt parts.1 short)
      (Nat.lt_of_le_of_lt parts.2 short) fun lenient wire wire' referred checked => ?_
    exact like rfl (fun t led => clear.structs name s t found ident
      (Registry.named?_eq_struct_iff.1 led)) (.inr rfl) referred checked

/-- What is told of an enumeration leads to an enumeration, if to anything. -/
theorem follows_enumInfo (id : Option Nat) {package typeName name : String} {members : Option Nat}
    (shortPackage : (Utf8.encode package).length < 2 ^ 62)
    (shortName : (Utf8.encode typeName).length < 2 ^ 62) :
    Follows (typeInfo env) ((if id.isSome then TypeId.enum else .namedEnum).encode ++
      id.elim (Write.names package typeName) Encode.varuint32)
      (WireType.Like (.enum name members)) := by
  have like {kind : TypeId} (isEnum : kind.isEnum = true) {named : Option NamedType} {text : String}
      {lenient : Bool} {wire wire' : WireType}
      (referred : referredType named text lenient = .ok wire)
      (checked : checkKind kind wire = .ok wire') : WireType.Like (.enum name members) wire' := by
    obtain ⟨name', members', rfl⟩ := enum_of_checkKind isEnum referred checked
    exact .enum name name' members members'
  cases id with
  | some id => exact follows_idInfo (.inr rfl) fun _ _ _ => like rfl
  | none => exact follows_namesInfo (.inr rfl) shortPackage shortName fun _ _ _ => like rfl

end Read

/-! ## Values -/

/-- What holds of a marker: it is complete for a null and for a known node, and not complete in front of
anything else. -/
theorem SeenHandles.mark_cases {seen seen' : SeenHandles} {v : Value} {complete : Bool}
    {marker : List UInt8} (marking : seen.mark v = ((complete, marker), seen')) :
    complete = true ∧ (marker = RefFlag.null.encode ∨
        ∃ number, marker = RefFlag.ref.encode ++ Encode.varuint32 number) ∨
      complete = false ∧ (marker = RefFlag.notNull.encode ∨ marker = RefFlag.newRef.encode) := by
  unfold mark at marking
  split at marking <;> split at marking <;> cases marking
  · exact .inl ⟨rfl, .inl rfl⟩
  · exact .inr ⟨rfl, .inl rfl⟩
  · exact .inl ⟨rfl, .inr ⟨_, rfl⟩⟩
  · exact .inr ⟨rfl, .inr rfl⟩

/-- The number of elements or entries of a node. -/
def Node.length : Node → Nat
  | .list elements | .set elements => elements.length
  | .map pairs => pairs.length
  | .record r => r.fields.size

/-- Whether all lengths within a graph can be written. -/
structure Graph.Sized (g : Graph) : Prop where
  lengths : ∀ h, (g.node h).length < 2 ^ 32
  parts : ∀ h, ∀ part ∈ (g.node h).contents, part.Short

theorem Graph.Sized.of_nodes {g : Graph}
    (h : ∀ n ∈ g.nodes.toList, n.length < 2 ^ 32 ∧ ∀ part ∈ n.contents, part.Short) : g.Sized := by
  have node (k : Handle) : (g.node k).length < 2 ^ 32 ∧ ∀ part ∈ (g.node k).contents, part.Short := by
    unfold node
    cases found : g.nodes[k.index]? with
    | none => exact ⟨by decide, fun _ none => absurd none List.not_mem_nil⟩
    | some n => exact h n (Array.mem_toList_iff.2 (Array.mem_of_getElem? found))
  exact ⟨fun k => (node k).1, fun k => (node k).2⟩

theorem Graph.Sized.of_nodeOf? {g : Graph} (sized : g.Sized) {v : Value} {n : Node}
    (found : g.nodeOf? v = some n) : n.length < 2 ^ 32 ∧ ∀ part ∈ n.contents, part.Short := by
  obtain ⟨h, -, rfl⟩ := Option.map_eq_some_iff.1 found
  exact ⟨sized.lengths h, sized.parts h⟩

theorem Record.short_value {r : Record} (short : ∀ part ∈ (Node.record r).contents, part.Short)
    (name : String) : (r.value name).Short := by
  unfold Record.value
  cases set : r.get? name with
  | none => exact trivial
  | some v => exact short v (List.mem_map_of_mem (mem_of_lookup set))

namespace Read

variable {α β : Type} {env : Environment} {g : Graph} {v : Value} {ws : WriteState}

theorem ensures_many_follows {write : α → Write (List UInt8)} (one : Read β) {items : List α}
    (step : ∀ a ∈ items, ∀ ws,
      Write.Ensures (write a) ws fun bytes _ => Follows one bytes fun _ => True) :
    Write.Ensures (Write.concat write items) ws fun bytes _ =>
      Follows (many one items.length) bytes fun _ => True := by
  induction items generalizing ws with
  | nil => exact .pure (.pure trivial)
  | cons a items ih =>
    refine (step a List.mem_cons_self ws).bind fun front ws₁ first => ?_
    refine (ih fun b member => step b (List.mem_cons_of_mem _ member)).bind
      fun back ws₂ others => .pure ?_
    exact first.bind fun _ _ => others.then fun _ _ => .pure trivial

theorem ensures_each_follows {write : α → Write (List UInt8)} {one : α → Read Unit} {items : List α}
    (step : ∀ a ∈ items, ∀ ws,
      Write.Ensures (write a) ws fun bytes _ => Follows (one a) bytes fun _ => True) :
    Write.Ensures (Write.concat write items) ws fun bytes _ =>
      Follows (each one items) bytes fun _ => True := by
  induction items generalizing ws with
  | nil => exact .pure (.pure trivial)
  | cons a items ih =>
    refine (step a List.mem_cons_self ws).bind fun front ws₁ first => ?_
    exact (ih fun b member => step b (List.mem_cons_of_mem _ member)).bind
      fun back ws₂ others => .pure (first.bind fun _ _ => others)

/-- A declared type is the same for the reader. -/
theorem like_of_declaredType (strict : env.Strict) {shape : Shape} {wire : WireType}
    (declared : env.declaredType shape = .ok wire) : wire.Like wire := by
  cases shape with
  | named name =>
    simp only [Environment.declaredType] at declared
    split at declared <;> cases declared
    · rename_i s found
      exact .struct (strict.built.built (Registry.named?_eq_struct_iff.1 found)).version true
    · exact .enum _ _ _ _
  | dynamic => cases declared
  | _ => cases declared; exact .builtin _

/-- Whether a reader of payloads follows a writer of payloads. -/
def Led (write : WritePayload) (read : ReadPayload) : Prop :=
  ∀ (wire wire' : WireType) (shape : Shape) (v : Value) (slot : Option Nat) (ws : WriteState),
    v.Short → wire.Like wire' → Write.Ensures (write wire shape v) ws fun bytes _ =>
      Follows (read wire' shape slot) bytes fun _ => True

variable (strict : env.Strict) (clear : env.registry.Unmistakable)

include strict clear

theorem ensures_typeInfo_follows (short : v.Short) :
    Write.Ensures (Write.typeInfo env g v) ws fun p _ =>
      Follows (typeInfo env) p.1 (WireType.Like p.2) := by
  unfold Write.typeInfo
  split
  · refine (Write.ensures_recordType strict.compatible).bind ?_
    rintro s ws₁ ⟨-, found⟩
    have follows := follows_structInfo strict clear found
    have built := strict.built.built found
    have plain : s.isCompatible = false := built.kind_eq
    rw [plain]
    cases ident : s.id with
    | some id =>
      rw [ident] at follows
      rw [if_pos (by rw [built.kind, ident]; rfl)]
      exact .pure follows
    | none =>
      rw [ident] at follows
      have kind : s.kind = .namedStruct := by rw [built.kind, ident]; rfl
      rw [if_neg (by rw [kind]; decide), if_pos kind]
      exact .pure follows
  · rename_i name ordinal _
    split
    · rename_i e found
      have names := clear.names _ (Registry.mem_types_of_enum? found)
      obtain ⟨front, back⟩ := length_of_qualify (strict.sound.enumName found).parts
      exact .pure (follows_enumInfo e.id (Nat.lt_of_le_of_lt front names)
        (Nat.lt_of_le_of_lt back names))
    · split
      · exact .throw _
      · obtain ⟨front, back⟩ := length_splitQualified name
        exact .pure (follows_enumInfo none (Nat.lt_of_le_of_lt front short.1)
          (Nat.lt_of_le_of_lt back short.1))
  · split
    · rename_i inferred
      obtain ⟨small, builtin⟩ := Graph.isWireBuiltin_of_inferType? inferred
      exact .pure ((takes_builtinInfo small builtin).follows (.builtin _))
    · exact .throw _

variable {write : WritePayload} {read : ReadPayload} (led : Led write read)

include led

theorem ensures_typed_follows (hasType : Bool) (shape : Shape) (slot : Option Nat)
    (short : v.Short) :
    Write.Ensures (Write.typed env g write hasType shape v) ws fun bytes _ =>
      Follows (typed env read hasType shape slot) bytes fun _ => True := by
  rw [typed_eq]
  unfold Write.typed
  cases hasType with
  | true =>
    refine (ensures_typeInfo_follows strict clear short).bind fun p ws₁ info => ?_
    refine Write.Ensures.bind (Q := fun bytes _ => ∀ wire', p.2.Like wire' →
      Follows (read wire' shape slot) bytes fun _ => True) ?_
        fun bytes _ payload => .pure (info.bind payload)
    intro bytes ws₂ run wire' like
    exact led p.2 wire' shape v slot ws₁ short like bytes ws₂ run
  | false =>
    refine Write.Ensures.bind (Q := fun wire _ => env.declaredType shape = .ok wire)
      (.lift fun _ declared => declared) fun wire ws₁ declared => ?_
    refine (led wire wire shape v slot ws₁ short (like_of_declaredType strict declared)).mono
      fun bytes _ payload => ?_
    exact ((Takes.check declared).follows (Q := (· = wire)) rfl).after fun _ same =>
      same ▸ payload

theorem ensures_marked_follows (mode : RefMode) (hasType : Bool) (shape : Shape) (short : v.Short) :
    Write.Ensures (Write.marked env g write mode hasType shape v) ws fun bytes _ =>
      Follows (marked env read mode hasType shape) bytes fun _ => True := by
  have flag {f : RefFlag} : Follows (decode Decode.refFlag) f.encode (· = f) :=
    (takes_refFlag f).follows rfl
  by_cases tracked : mode = .tracking
  · subst tracked
    obtain ⟨⟨⟨complete, marker⟩, seen⟩, marking⟩ : ∃ p, ws.seen.mark v = p := ⟨_, rfl⟩
    unfold marked
    rw [if_neg (by decide)]
    refine Write.ensures_marked marking (fun done => ?_) (fun new => ?_)
    · rcases SeenHandles.mark_cases marking with ⟨-, rfl | ⟨number, rfl⟩⟩ | ⟨open_, -⟩
      · exact flag.then fun _ same => same ▸ .pure trivial
      · refine flag.bind fun _ same => ?_
        subst same
        exact ((takes_varuint32 number).follows (Q := fun _ => True) trivial).then
          fun _ _ => follows_resolve _
      · cases done.symm.trans open_
    · rcases SeenHandles.mark_cases marking with ⟨done, -⟩ | ⟨-, rfl | rfl⟩
      · cases done.symm.trans new
      · refine (ensures_typed_follows strict clear led hasType shape none short).mono
          fun bytes _ value => flag.bind fun _ same => ?_
        subst same
        exact value
      · refine Write.Ensures.mono (Q := fun bytes _ => ∀ slot,
          Follows (typed env read hasType shape slot) bytes fun _ => True) ?_
            fun bytes _ value => flag.bind fun _ same => ?_
        · intro bytes ws₁ run slot
          exact ensures_typed_follows strict clear led hasType shape slot short bytes ws₁ run
        · subst same
          exact follows_reserve.after fun number _ => (value (some number)).then fun v _ =>
            (follows_publish _ v).after fun _ _ => .pure trivial
  · refine Write.ensures_marked_untracked tracked (fun _ markers => ?_) fun _ =>
      (ensures_typed_follows strict clear led hasType shape none short).mono
        fun bytes _ value => ⟨fun markers => ?_, fun plain => ?_⟩
    · subst markers
      exact flag.then fun _ same => same ▸ .pure trivial
    · subst markers
      exact flag.bind fun _ same => same ▸ value
    · subst plain
      exact value

/-! ## Nodes -/

theorem ensures_items_follows (node : List Value → Node) (shape : Shape) (slot : Option Nat)
    {elements : List Value} (count : elements.length < 2 ^ 32)
    (short : ∀ part ∈ elements, part.Short) :
    Write.Ensures (Write.items env g write shape elements) ws fun bytes _ =>
      Follows (items env read node shape slot) bytes fun _ => True := by
  refine Write.ensures_items ((ensures_many_follows
    (element env read (env.elementHeader shape.parts.1 elements) shape.parts.1) fun v member ws =>
      ensures_marked_follows strict clear led _ _ _ (short v member)).mono fun bytes _ parts => ?_)
  unfold items Encode.counted
  refine ((Takes.decode (Decode.yields_varuint32 count)).follows (Q := (· = _)) rfl).bind ?_
  rintro _ rfl
  refine (follows_limit _ _ _).after fun _ _ => (follows_alloc _).after fun h _ =>
    (follows_publish slot _).after fun _ _ => ?_
  by_cases empty : elements.length = 0
  · rw [if_pos empty, if_pos empty]
    exact .pure trivial
  · rw [if_neg empty, if_neg empty]
    refine ((takes_elementHeader declared_elementHeader).follows (Q := (· = _)) rfl).bind ?_
    rintro _ rfl
    exact parts.then fun _ _ => (follows_setNode _ _).after fun _ _ => .pure trivial

theorem ensures_entries_follows (shape : Shape) (slot : Option Nat) {pairs : List (Value × Value)}
    (count : pairs.length < 2 ^ 32) (short : ∀ part ∈ (Node.map pairs).contents, part.Short) :
    Write.Ensures (Write.entries env g write shape pairs) ws fun bytes _ =>
      Follows (entries env read shape slot) bytes fun _ => True := by
  refine Write.ensures_entries ((ensures_many_follows (do
      let key ← element env read (env.elementHeader shape.parts.1 (pairs.map (·.1))) shape.parts.1
      let value ← element env read (env.elementHeader shape.parts.2 (pairs.map (·.2))) shape.parts.2
      return (key, value)) fun pair member ws => ?_).mono fun bytes _ parts => ?_)
  · obtain ⟨key, value⟩ := Node.forall_contents_map.1 short pair member
    refine (ensures_marked_follows strict clear led _ _ _ key).bind fun front _ first => ?_
    exact (ensures_marked_follows strict clear led _ _ _ value).bind fun back _ second =>
      .pure (first.bind fun _ _ => second.then fun _ _ => .pure trivial)
  · unfold entries Encode.counted
    refine ((Takes.decode (Decode.yields_varuint32 count)).follows (Q := (· = _)) rfl).bind ?_
    rintro _ rfl
    refine (follows_limit _ _ _).after fun _ _ => (follows_alloc _).after fun h _ =>
      (follows_publish slot _).after fun _ _ => ?_
    by_cases empty : pairs.length = 0
    · rw [if_pos empty, if_pos empty]
      exact .pure trivial
    · rw [if_neg empty, if_neg empty, List.append_assoc]
      refine ((takes_elementHeader declared_elementHeader).follows
        (Q := (· = _)) rfl).bind ?_
      rintro _ rfl
      refine ((takes_elementHeader declared_elementHeader).follows
        (Q := (· = _)) rfl).bind ?_
      rintro _ rfl
      exact parts.then fun _ _ => (follows_setNode _ _).after fun _ _ => .pure trivial

theorem ensures_record_follows {s : StructType}
    (version : -2 ^ 31 ≤ s.version ∧ s.version < 2 ^ 31) (hash : Bool) (slot : Option Nat)
    {r : Record} (short : ∀ part ∈ (Node.record r).contents, part.Short) :
    Write.Ensures (Write.record env g write s hash r) ws fun bytes _ =>
      Follows (record env read s hash slot) bytes fun _ => True := by
  have field (f : Field) (ws : WriteState) (h : Handle) :
      Write.Ensures (Write.field env g write s r f) ws fun bytes _ =>
        Follows (field env read s h f) bytes fun _ => True := by
    have value := Record.short_value short f.name
    unfold Write.field
    dsimp only
    split
    · exact .throw _
    · refine (ensures_marked_follows strict clear led _ _ _ value).mono fun bytes _ value =>
        value.then fun v _ => ?_
      split
      · exact follows_noteNull _ _
      · exact follows_setField _ _ _
  refine Write.ensures_record strict.strategy (Write.Ensures.mono (Q := fun bytes _ => ∀ h,
    Follows (each (Read.field env read s h) s.fields) bytes fun _ => True) ?_ fun bytes _ fields => ?_)
  · intro bytes ws₁ run h
    exact ensures_each_follows (fun f _ ws => field f ws h) bytes ws₁ run
  · have body : Follows (do
        let h ← newRecord s.qualifiedName slot
        Read.fields env read s h
        return .handle h : Read Value) bytes fun _ => True := by
      unfold newRecord Read.fields
      rw [strict.strategy]
      simp only [bind_assoc, pure_bind]
      exact (follows_alloc _).after fun h _ => (follows_publish slot _).after fun _ _ =>
        (fields h).then fun _ _ => .pure trivial
    unfold record
    cases hash with
    | true =>
      rw [if_pos rfl]
      refine ((Takes.decode (Decode.yields_signed (by omega) (by omega))).follows
        (Q := (· = _)) rfl).bind ?_
      rintro _ rfl
      refine Follows.after (Q := fun _ => True) ?_ fun _ _ => body
      rw [checkVersion, if_pos rfl]
      exact .pure trivial
    | false => exact body

omit led in
theorem led_layer (sized : g.Sized) {write : Option WritePayload} {read : Option ReadPayload}
    (deeper : ∀ w, write = some w → ∃ r, read = some r ∧ Led w r) :
    Led (Write.layer env g write) (layer env read) := by
  intro wire wire' shape v slot ws short like
  apply Write.ensures_layer
  case scalar =>
    rintro t bytes rfl noContainer written
    cases like
    simp only [layer, noContainer, Bool.false_eq_true, if_false]
    exact follows_scalar written short
  case list =>
    rintro inner elements known found rfl
    cases like
    obtain ⟨r, rfl, led⟩ := deeper inner known
    obtain ⟨count, parts⟩ := sized.of_nodeOf? found
    exact ensures_items_follows strict clear led _ shape slot count parts
  case set =>
    rintro inner elements known found rfl
    cases like
    obtain ⟨r, rfl, led⟩ := deeper inner known
    obtain ⟨count, parts⟩ := sized.of_nodeOf? found
    exact ensures_items_follows strict clear led _ shape slot count parts
  case map =>
    rintro inner pairs known found rfl
    cases like
    obtain ⟨r, rfl, led⟩ := deeper inner known
    obtain ⟨count, parts⟩ := sized.of_nodeOf? found
    exact ensures_entries_follows strict clear led shape slot count parts
  case struct =>
    rintro inner s hash r known rfl isRecord named
    cases like with
    | struct version =>
      obtain ⟨r, rfl, led⟩ := deeper inner known
      exact ensures_record_follows strict clear led version hash slot
        (sized.of_nodeOf? (Graph.nodeOf?_of_asRecord? isRecord)).2
  case member =>
    rintro typeName members name ordinal rfl rfl
    cases like
    refine ((Takes.decode (Decode.yields_varuint32 short.2)).follows (Q := fun _ => True)
      trivial).then fun ordinal _ => ?_
    split
    · exact .pure trivial
    · exact .throw fun same => by cases same

omit led in
theorem led_payload (sized : g.Sized) (levels : Nat) :
    Led (Write.payload env g levels) (payload env levels) := by
  induction levels with
  | zero => exact led_layer strict clear sized fun _ known => by cases known
  | succ levels ih =>
    exact led_layer strict clear sized fun _ known => ⟨_, rfl, by cases known; exact ih⟩

omit led in
theorem follows_frame (sized : g.Sized) {mode : RefMode} (short : v.Short) :
    Write.Ensures (Write.value env g mode true .dynamic v) ws fun bytes _ =>
      Follows (frame env mode) (Encode.head false ++ bytes) fun _ => True := by
  refine (ensures_marked_follows strict clear (led_payload strict clear sized env.config.maxDepth)
    mode true .dynamic short).mono fun bytes _ value => ?_
  refine ((takes_head false).follows (Q := (· = false)) rfl).bind fun _ plain => ?_
  subst plain
  refine value.then fun v _ => ?_
  have state : Follows (get : Read ReadState) [] fun _ => True := .silent fun _ => ⟨_, _, rfl, rfl⟩
  refine state.after fun st _ => ?_
  dsimp only
  split
  · exact Follows.after (Q := fun _ => False) (.throw fun same => by cases same)
      fun _ never => never.elim
  · exact .pure trivial

end Read

/-! ## Instances -/

namespace Instance

/-- In strict mode an instance has the levels to read what it wrote. -/
theorem Reachable.kind_of_deserialize_error {i : Instance} (reachable : i.Reachable)
    (strict : i.config.compatible = false) (clear : i.registry.Unmistakable) {g : Graph}
    (sized : g.Sized) {v : Value} (short : v.Short) {bytes : List UInt8}
    (written : i.serialize g v = .ok bytes) {e : Error} (refused : (i.deserialize bytes).1 = .error e) :
    e.kind ≠ .depthExceed := by
  have sane := sane_of_serialize written
  let plain := i.setStrategy .interpreted
  have follows : ∀ e, (plain.deserialize bytes).1 = .error e → e.kind ≠ .depthExceed := by
    intro e refused
    obtain ⟨-, ⟨-, rfl⟩ | ⟨-, body, ws, rfl, run⟩⟩ :=
      ok_of_serialize (reachable.serialize_interpreted written)
    · rw [plain.deserialize_null sane] at refused
      cases refused
    · have frame := Read.follows_frame (reachable.strict sane strict) clear sized short body ws run
      rw [deserialize_of_sane plain _ sane] at refused
      split at refused
      · cases refused
      · rename_i st failed
        cases refused
        exact frame.kind_of_error (List.append_nil _).symm failed
  have alike := reachable.deserialize_setStrategy bytes
  cases strategy : i.config.strategy with
  | interpreted =>
    refine follows e ?_
    rw [show plain = i.setStrategy i.config.strategy from by rw [strategy]]
    exact refused
  | compiled =>
    rw [show i.setStrategy .compiled = i.setStrategy i.config.strategy from by rw [strategy]] at alike
    generalize read : (plain.deserialize bytes).1 = outcome at alike
    rw [show ((i.setStrategy i.config.strategy).deserialize bytes).1 = .error e from refused] at alike
    cases alike with
    | error kind => exact kind ▸ follows _ read

/-- The levels that are counted up are those that are left, a graph that leads into a cycle is not
written without references, and the levels that a value was written in are enough to read it, where no
struct is mistaken for another one. -/
theorem cycles_refused_and_levels_followed {i : Instance} (reachable : i.Reachable)
    (small : i.config.maxDepth < 2 ^ 32 - 1) (g : Graph) (v : Value) :
    (∀ beyond calls, i.config.maxDepth < calls →
      Write.marked i.environment g (Write.counted i.environment g beyond calls 0) i.rootMode true
          .dynamic v = Write.value i.environment g i.rootMode true .dynamic v) ∧
    (i.config.trackRef = false → ∀ c, Relation.ReflTransGen (g.Writes i.registry) v c →
      Relation.TransGen (g.Writes i.registry) c c → ∀ bytes, i.serialize g v ≠ .ok bytes) ∧
    (i.config.compatible = false → i.registry.Unmistakable → g.Sized → v.Short → ∀ bytes e,
      i.serialize g v = .ok bytes → (i.deserialize bytes).1 = .error e → e.kind ≠ .depthExceed) := by
  refine ⟨fun beyond calls enough => ?_, fun untracked c reached cycle bytes =>
    reachable.serialize_ne_ok untracked reached cycle bytes, fun strict clear sized short bytes e
    written refused =>
    reachable.kind_of_deserialize_error strict clear sized short written refused⟩
  exact congrArg (fun inner => Write.marked _ g inner i.rootMode true .dynamic v)
    (Write.counted_eq small beyond (Nat.zero_add _) enough)

/-- An instance of two levels that knows, by its name, a struct that may refer to anything. -/
def shallow : Instance :=
  [.setMaxDepth 2,
    .registerStruct none ⟨.ofNames "demo" "Node", none, false,
      [{ FieldDecl.ofShape "next" .dynamic with nullable := true }]⟩].foldl perform fresh

/-- A list of a node that leads back to the list, and a list of a node that leads nowhere. -/
def ringAndChain : Graph :=
  ⟨#[.list [.handle ⟨1⟩], .record ((Record.ofType "demo.Node").set "next" (.handle ⟨0⟩)),
    .list [.handle ⟨3⟩], .record (.ofType "demo.Node")]⟩

theorem shallow_reachable : shallow.Reachable := ⟨_, rfl⟩

theorem shallow_unmistakable : shallow.registry.Unmistakable := by
  have types : shallow.registry.types = [("demo.Node", none)] := by decide +kernel
  refine Registry.unmistakable_of_noDot
    (shallow_reachable.sound.built (by decide +kernel)) ?_ ?_ ?_
  · simp [types]
  · rw [types]
    exact List.forall_mem_singleton.2 (by decide +kernel)
  · simp [types]

theorem ringAndChain_sized : ringAndChain.Sized := by
  refine .of_nodes fun n member => ?_
  simp only [ringAndChain, List.mem_cons, List.not_mem_nil, or_false] at member
  rcases member with rfl | rfl | rfl | rfl
  · exact ⟨by decide, List.forall_mem_singleton.2 trivial⟩
  · exact ⟨by decide, List.forall_mem_singleton.2 trivial⟩
  · exact ⟨by decide, List.forall_mem_singleton.2 trivial⟩
  · exact ⟨by decide, fun _ none => absurd none List.not_mem_nil⟩

/-- The ring is refused, the chain has the bytes of its two levels, and these are not refused. -/
theorem ring_refused_and_chain_followed :
    (shallow.Reachable ∧ shallow.config.maxDepth < 2 ^ 32 - 1 ∧
      Relation.TransGen (ringAndChain.Writes shallow.registry) (.handle ⟨0⟩) (.handle ⟨0⟩) ∧
      shallow.registry.Unmistakable ∧ ringAndChain.Sized) ∧
    (∀ bytes, shallow.serialize ringAndChain (.handle ⟨0⟩) ≠ .ok bytes) ∧
      shallow.serialize ringAndChain (.handle ⟨2⟩) = .ok [212, 98, 6, 255, 22, 1, 0, 29, 18, 100, 101,
        109, 111, 18, 78, 111, 100, 101, 3, 115, 160, 81, 253] ∧
      ∀ e, (shallow.deserialize [212, 98, 6, 255, 22, 1, 0, 29, 18, 100, 101, 109, 111, 18, 78, 111,
        100, 101, 3, 115, 160, 81, 253]).1 = .error e → e.kind ≠ .depthExceed := by
  have small : shallow.config.maxDepth < 2 ^ 32 - 1 := by decide +kernel
  have written : shallow.serialize ringAndChain (.handle ⟨2⟩) = .ok [212, 98, 6, 255, 22, 1, 0, 29,
      18, 100, 101, 109, 111, 18, 78, 111, 100, 101, 3, 115, 160, 81, 253] := by decide +kernel
  have cycle : Relation.TransGen (ringAndChain.Writes shallow.registry) (.handle ⟨0⟩) (.handle ⟨0⟩) :=
    .tail (.single ⟨⟨0⟩, rfl, List.mem_singleton_self _⟩) ⟨⟨1⟩, rfl, by decide +kernel⟩
  refine ⟨⟨shallow_reachable, small, cycle, shallow_unmistakable, ringAndChain_sized⟩, ?_, written, ?_⟩
  · exact (cycles_refused_and_levels_followed shallow_reachable small ringAndChain (.handle ⟨0⟩)).2.1
      (by decide +kernel) _ .refl cycle
  · exact fun e => (cycles_refused_and_levels_followed shallow_reachable small ringAndChain
      (.handle ⟨2⟩)).2.2 (by decide +kernel) shallow_unmistakable ringAndChain_sized trivial _ e written

/-- An instance of two levels that knows two structs by names that are the same but for a dot at the
start. -/
def dotted : Instance :=
  [.setMaxDepth 2,
    .registerStruct none ⟨.ofNames "" ".foo", none, false,
      [.ofShape "a" (.list (.scalar .string))]⟩,
    .registerStruct none ⟨.ofNames "" "foo", none, false,
      [.ofShape "a" (.list (.list (.scalar .string)))]⟩].foldl perform fresh

/-- A record of the first struct comes back as one of the second, whose lists are nested: they need a
level that the record did not have. -/
theorem deserialize_dotted :
    dotted.serialize ⟨#[.record ((Record.ofType ".foo").set "a" (.handle ⟨1⟩)), .list [.string "x"]]⟩
        (.handle ⟨0⟩) =
      .ok [212, 98, 6, 255, 29, 2, 14, 102, 111, 111, 145, 250, 217, 75, 1, 4, 6, 120] ∧
    (dotted.deserialize
        [212, 98, 6, 255, 29, 2, 14, 102, 111, 111, 145, 250, 217, 75, 1, 4, 6, 120]).1 =
      .error (.depthExceeded 2) := by
  refine ⟨?_, ?_⟩ <;> decide +kernel

end Instance

end Graphwire
