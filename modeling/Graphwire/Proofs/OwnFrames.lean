import Graphwire.Proofs.Guardrails
import Graphwire.Proofs.Evolution

/-!
# Frames of one's own

What an instance writes can be read by a fresh instance with its types and its settings. Two things are
refused by design, and by readers alone: sizes above a ceiling, and definitions with containers that nest
deeper than a reader follows. A registration asks for neither. So a definition is taken just if nothing
in it nests deeper, and a frame of such definitions is taken unless a ceiling cuts it off, as long as what
the frame tells leads back to what was written.
-/

namespace Graphwire

set_option autoImplicit false

open Decode (Gives Yields YieldsIf)

/-! ## Definitions that are taken -/

/-- A number that is found in one of two ways, where nothing is needed of it. -/
theorem Decode.Gives.either {α β : Type} {c : Prop} [Decidable c] {d d' : Decode α}
    {f : α → Decode β} {P : β → Prop} (h : ∀ a, (f a).Gives P) :
    (if c then d >>= f else d' >>= f).Gives P := by
  split <;> exact (Gives.true _).bind fun a _ => h a

theorem Decode.gives_many {α : Type} {one : Decode α} {P : α → Prop} (h : one.Gives P) (n : Nat) :
    (many one n).Gives fun items => ∀ a ∈ items, P a := by
  induction n with
  | zero => exact .pure nofun
  | succ n ih =>
    exact h.bind fun a first => ih.bind fun others rest =>
      .pure (List.forall_mem_cons.2 ⟨first, rest⟩)

theorem Decode.gives_within {α : Type} {d : Decode α} {P : α → Prop} (h : d.Gives P)
    (bytes : List UInt8) : (within bytes d).Gives P := by
  unfold within
  split
  · rename_i run
    exact .pure (h _ _ _ run)
  · exact .throw _

namespace FieldType

variable {part : Decode FieldType} {P : FieldType → Prop}

theorem gives_parts (h : part.Gives P) (t : TypeId) : (decodeParts part t).Gives fun generics =>
    generics.length = t.arity ∧ ∀ g ∈ generics, P g := by
  unfold decodeParts TypeId.arity
  split
  · exact h.bind fun a first => .pure ⟨rfl, List.forall_mem_singleton.2 first⟩
  · split
    · exact h.bind fun k key => h.bind fun v value =>
        .pure ⟨rfl, List.forall_mem_cons.2 ⟨key, List.forall_mem_singleton.2 value⟩⟩
    · exact .pure ⟨rfl, nofun⟩

/-- A part that is read could be told with the levels that were left. -/
theorem gives_part (levels : Nat) : (decodePart levels).Gives (Fits levels) := by
  induction levels with
  | zero => exact .throw _
  | succ levels ih =>
    refine Decode.gives_varuint32.bind fun header small => ?_
    refine (gives_parts ih ⟨header / 4⟩).bind fun generics fits => .pure ⟨?_, fits⟩
    show header / 4 < 2 ^ 30
    omega

theorem gives_decode (nullable tracked : Bool) :
    (decode nullable tracked).Gives (Tellable maxDepth) :=
  Decode.gives_varuint32.bind fun code small =>
    (gives_parts (gives_part maxDepth) ⟨code⟩).bind fun _ fits => .pure ⟨small, fits.1, fits.2⟩

/-- The parts of a type need as many levels as its shape has containers. -/
theorem nesting_le_of_parts {lookup : NamedLookup} {shape : Shape} {levels : Nat}
    {nullable tracked : Bool}
    (parts : ∀ g ∈ (shape.fieldType lookup nullable tracked).generics, g.Fits levels) :
    shape.nesting ≤ levels := by
  induction shape generalizing levels nullable tracked with
  | scalar t | named name | dynamic => exact Nat.zero_le levels
  | list e ih | set e ih =>
    obtain _ | levels := levels
    · exact (parts _ List.mem_cons_self).elim
    · exact Nat.succ_le_succ (ih (parts _ List.mem_cons_self).2.2)
  | map k v ihk ihv =>
    obtain _ | levels := levels
    · exact (parts _ List.mem_cons_self).elim
    · have key := ihk (parts _ List.mem_cons_self).2.2
      have value := ihv (parts _ (List.mem_cons_of_mem _ List.mem_cons_self)).2.2
      exact Nat.succ_le_succ (Nat.max_le.2 ⟨key, value⟩)

end FieldType

theorem FieldEntry.gives_decode :
    FieldEntry.decode.Gives fun e => e.type.Tellable FieldType.maxDepth := by
  refine (Gives.true _).bind fun header _ => Gives.either fun size => ?_
  refine (FieldType.gives_decode _ _).bind fun type tellable => ?_
  split
  · exact (Gives.true _).bind fun _ _ => (Gives.true _).bind fun _ _ => .pure tellable
  · split
    · exact .pure tellable
    · exact .throw _
  · exact .throw _

/-- No type of a definition that is read nests deeper than a reader follows. -/
theorem TypeDefinition.gives_decode : decode.Gives fun d =>
    ∀ e ∈ d.fields, e.type.Tellable FieldType.maxDepth := by
  refine (Gives.true _).bind fun header _ => ?_
  refine (Gives.true _).bind fun size _ => (Gives.true _).bind fun layer _ => ?_
  refine Decode.gives_within ?_ layer
  refine (Gives.true _).bind fun byte _ => Gives.either fun count => ?_
  refine (Gives.true _).bind fun identity _ => ?_
  exact (Decode.gives_many FieldEntry.gives_decode count).bind fun _ tellable => .pure tellable

namespace StructType

/-- Whether the bytes that are told of a struct are read back, whatever follows, as what they tell. -/
def ReadsBack (s : StructType) : Prop :=
  ∃ bytes hash, s.definition = some bytes ∧ Yields TypeDefinition.decode bytes
    ⟨hash, s.identity, s.fields.map FieldEntry.ofField⟩

/-- Whether the bytes that are told of a struct are refused, whatever follows. -/
def Refused (s : StructType) : Prop :=
  ∃ bytes, s.definition = some bytes ∧
    ∀ p rest, ∃ e r, TypeDefinition.decode ⟨p, bytes ++ rest⟩ = .error e r

theorem told_eq_mk (s : StructType) (header : Int) :
    s.told header = ⟨header / 2 ^ 14, s.identity, s.fields.map FieldEntry.ofField⟩ := by
  unfold told definitionOf TypeDefinition.ofFields identity
  cases s.id <;> rfl

variable {s : StructType} (described : s.Described true)

include described

/-- Fields whose entries can be told nest no deeper than a reader follows. -/
theorem Described.nesting_of_entries
    (tellable : ∀ e ∈ s.fields.map FieldEntry.ofField, e.type.Tellable FieldType.maxDepth) :
    ∀ f ∈ s.fields, f.toldShape.nesting ≤ FieldType.maxDepth := by
  obtain ⟨lookup, -, fields⟩ := described.fields
  intro f member
  have parts := (tellable _ (List.mem_map_of_mem member)).parts
  rw [(fields f member).entryType] at parts
  exact FieldType.nesting_le_of_parts parts

/-- A definition is read back if nothing in it nests deeper than a reader follows, and refused if
something does. -/
theorem Described.reads_back_or_refused (brief : s.Brief) :
    ((∀ f ∈ s.fields, f.toldShape.nesting ≤ FieldType.maxDepth) → s.ReadsBack) ∧
      ((∃ f ∈ s.fields, FieldType.maxDepth < f.toldShape.nesting) → s.Refused) := by
  obtain ⟨header, after, defined⟩ := described.defined_of_brief brief
  have whole : YieldsIf _ TypeDefinition.decode (Encode.signed 8 header ++ after) (s.told header) :=
    defined.reads.readHeader.yieldsIf.bind defined.reads.read
  rw [told_eq_mk] at whole
  constructor
  · intro shallow
    exact ⟨_, _, defined.definition, whole.yields (described.tellable_of_readable ⟨brief, shallow⟩)⟩
  · rintro ⟨f, member, deep⟩
    refine ⟨_, defined.definition, fun p rest => ?_⟩
    rcases whole p rest with ⟨p', run⟩ | ⟨-, refused⟩
    · have shallow := described.nesting_of_entries (TypeDefinition.gives_decode _ _ _ run) f member
      exact absurd shallow (Nat.not_le.2 deep)
    · exact refused

end StructType

/-! ## What leads back -/

/-- Whether what is told of a value leads back to it. Definitions can be read, and those that differ have
different headers; names without an identifier lead to the type that they are written for; and all that
is counted fits the format. -/
structure Environment.Retells (env : Environment) (g : Graph) (root : Value) : Prop where
  readable : ∀ s, env.Sends g s → s.Readable
  apart : HeadersApart (env.Sends g)
  named : ∀ s, env.Sends g s → s.id = none → ¬DotOnlyInFront s.qualifiedName
  idents : ∀ name e id, env.registry.enum? name = some e → e.id = some id → id < 2 ^ 32
  unknown : ∀ name ordinal, g.Shows root (.enum name ordinal) → env.registry.enum? name = none →
    env.registry.Recovers name
  sized : g.Sized
  short : root.Short
  nodes : ∀ hs : List Handle, hs.Nodup → (∀ h ∈ hs, g.Shows root (.handle h)) → hs.length ≤ 2 ^ 32
  types : g.typeNames.eraseDups.length ≤ 2 ^ 31

/-- An environment in compatible mode without ceilings, in which what is told of a value leads back. -/
structure Environment.Reciting (env : Environment) (g : Graph) (root : Value) : Prop
    extends env.Describing where
  unlimited : env.config.limits = .unlimited
  retells : env.Retells g root

namespace Environment.Reciting

variable {env : Environment} {g : Graph} {root : Value} (reciting : env.Reciting g root) {r : Record}
  {s : StructType}

include reciting

/-- The definition of a struct leads to the struct that is registered under the name of its records, if
there is one. -/
theorem own_peer (written : env.structFor? r = some s) (sends : env.Sends g s) :
    (env.registry.peer s).own = env.registry.struct? r.typeName := by
  show env.registry.structOf? (s.told _).identity = _
  obtain ⟨known, sendable, named⟩ := reciting.cases_structFor? written
  obtain ⟨_, name, id, built⟩ := sendable.built
  have same : name = r.typeName := built.qualifiedName.symm.trans named
  cases ident : s.id with
  | none =>
    exact Registry.structOf?_told_names ident (same ▸ built.parts)
      (named ▸ reciting.retells.named s sends ident) _
  | some id =>
    rcases known with registered | ⟨-, made⟩
    · rw [registered]
      exact Registry.structOf?_told reciting.sound reciting.built registered ident ident _
    · cases ident.symm.trans (StructType.build_built made).ident

/-- A struct that is registered is read as itself. -/
theorem sameLayout_peer (written : env.structFor? r = some s) (sends : env.Sends g s)
    (registered : env.registry.struct? r.typeName = some s) :
    (env.registry.peer s).sameLayout = true := by
  obtain ⟨header, after, defined⟩ := (reciting.sendable_of_sends sends).described.defined_of_brief
    (reciting.retells.readable s sends).toBrief
  have own := (reciting.own_peer written sends).trans registered
  rw [defined.peer_eq] at own ⊢
  rw [Registry.sameLayout_peerOf own, defined.front]
  exact decide_eq_true rfl

/-- A struct that is registered is read by its own fields, and one that was made up by the entries of its
definition. -/
theorem suits (written : env.structFor? r = some s) (sends : env.Sends g s) :
    (env.registry.peer s).Suits env env s := by
  obtain ⟨known, sendable, -⟩ := reciting.cases_structFor? written
  have own := reciting.own_peer written sends
  rcases known with registered | ⟨unknown, made⟩
  · obtain ⟨_, _, _, built⟩ := sendable.built
    refine .own (reciting.sameLayout_peer written sends registered) (own.trans registered)
      ⟨_, registered⟩ (List.forall₂_same.2 fun f member => ⟨rfl, ?_⟩)
    exact Environment.meets_fieldPlace reciting.compatible (built.resolved f member)
  · exact sendable.suits_unknown reciting.compatible (own.trans unknown) (Registry.plain_adhocStruct made)

/-- An environment in which what is told leads back tells itself all that it needs. -/
theorem instructs : env.Instructs env g root where
  writer := reciting.toDescribing
  reader := reciting.toDescribing
  unlimited := reciting.unlimited
  readable := reciting.retells.readable
  apart := reciting.retells.apart
  suits := fun _ ⟨h, r, here, written⟩ => reciting.suits written ⟨h, r, here, written⟩
  admitted := fun _ _ sends written admitted absent =>
    admitted ((reciting.own_peer written sends).symm.trans absent)
  enums := fun name _ e _ found => ⟨found, fun id => reciting.retells.idents name e id found⟩
  unknown := fun name ordinal shows unknown lenient =>
    ⟨lenient, unknown, reciting.retells.unknown name ordinal shows unknown⟩
  sized := reciting.retells.sized
  short := reciting.retells.short
  nodes := reciting.retells.nodes
  types := reciting.retells.types

end Environment.Reciting

/-! ## Fresh instances -/

namespace Instance

/-- The instance with the same types and settings that has received nothing. -/
def renewed (i : Instance) : Instance := { i with cache := .empty }

theorem renewed_settle {α : Type} (i : Instance) (outcome : Registry.Outcome α) :
    (i.settle outcome).2.renewed = (i.renewed.settle outcome).2 := by
  obtain ⟨_ | _, registry⟩ := outcome <;> rfl

theorem renewed_reconfigure (i : Instance) (config : Config) :
    (i.reconfigure config).renewed = i.renewed.reconfigure config := by
  unfold reconfigure
  dsimp only [renewed]
  split <;> rfl

/-- An action does to a fresh instance what it does to the types and the settings. -/
theorem renewed_perform (i : Instance) (action : Action) :
    (i.perform action).renewed = i.renewed ∨ (i.perform action).renewed = i.renewed.perform action := by
  cases action with
  | setCompatible | setTrackRef => exact .inr (i.renewed_reconfigure _)
  | setMaxDepth | setLimits | setRequireRegistration | setStrategy => exact .inr rfl
  | registerStruct | registerEnum | registerStructAuto | registerEnumAuto =>
    exact .inr (i.renewed_settle _)
  | deserialize bytes =>
    obtain ⟨cache, same⟩ := i.deserialize_instance bytes
    refine .inl ?_
    show (i.deserialize bytes).2.renewed = i.renewed
    rw [same]
    rfl

theorem Reachable.renewed {i : Instance} (reachable : i.Reachable) : i.renewed.Reachable := by
  refine reachable.induct (P := fun i => i.renewed.Reachable) ⟨[], rfl⟩ fun i action fresh => ?_
  rcases i.renewed_perform action with same | same
  · exact same ▸ fresh
  · exact same ▸ fresh.perform action

/-- Whether what is told of a value leads back to it does not depend on ceilings, or on the way to go
through records. -/
theorem retells_interpreted {i : Instance} {g : Graph} {v : Value} (retells : i.environment.Retells g v) :
    ((i.renewed.setLimits .unlimited).setStrategy .interpreted).environment.Retells g v where
  readable := retells.readable
  apart := retells.apart
  named := retells.named
  idents := retells.idents
  unknown := retells.unknown
  sized := retells.sized
  short := retells.short
  nodes := retells.nodes
  types := retells.types

/-- An instance in compatible mode without ceilings reads its frames once it is fresh. -/
theorem Reachable.deserialize_own {i : Instance} (reachable : i.Reachable)
    (compatible : i.config.compatible = true) {g : Graph} {v : Value}
    (retells : i.environment.Retells g v) {bytes : List UInt8} (written : i.serialize g v = .ok bytes) :
    ∃ result, ((i.renewed.setLimits .unlimited).deserialize bytes).1 = .ok result := by
  have sane := sane_of_serialize written
  have loose : (i.renewed.setLimits .unlimited).Reachable :=
    reachable.renewed.perform (.setLimits .unlimited)
  have reciting : ((i.renewed.setLimits .unlimited).setStrategy .interpreted).environment.Reciting g v :=
    { loose.describing sane compatible with
      unlimited := rfl
      retells := retells_interpreted retells }
  have again : ((i.renewed.setLimits .unlimited).setStrategy .interpreted).serialize g v = .ok bytes := by
    rw [loose.serialize_setStrategy .interpreted i.config.strategy g v]
    exact (i.renewed.serialize_setLimits .unlimited g v).trans written
  obtain ⟨result, read⟩ := reciting.instructs.deserialize_written
    (W := (i.renewed.setLimits .unlimited).setStrategy .interpreted) sane rfl rfl (Nat.le_refl _) again
  exact ⟨result, loose.deserialize_eq_ok read⟩

/-- A definition of one's own is read back just if its containers nest no deeper than a reader follows.
What an instance in compatible mode writes, a fresh one with its types and its settings reads, where what
it tells leads back to what was written, unless it has ceilings and one of them is in the way. -/
theorem Reachable.own_frames_read {i : Instance} (reachable : i.Reachable) (sane : i.fault = none)
    (compatible : i.config.compatible = true) :
    (∀ s, i.registry.HasStruct s → s.Brief →
      ((∀ f ∈ s.fields, f.toldShape.nesting ≤ FieldType.maxDepth) → s.ReadsBack) ∧
      ((∃ f ∈ s.fields, FieldType.maxDepth < f.toldShape.nesting) → s.Refused)) ∧
    ∀ g v bytes, i.environment.Retells g v → i.serialize g v = .ok bytes →
      (∃ result, (i.renewed.deserialize bytes).1 = .ok result) ∨
        i.config.limits ≠ .unlimited ∧
          ∃ e, (i.renewed.deserialize bytes).1 = .error e ∧ e.kind = .sizeLimitExceeded := by
  refine ⟨fun s ⟨_, found⟩ => (compatible ▸ reachable.described sane found).reads_back_or_refused, ?_⟩
  intro g v bytes retells written
  obtain ⟨result, read⟩ := reachable.deserialize_own compatible retells written
  by_cases unlimited : i.config.limits = .unlimited
  · have same : i.renewed.setLimits .unlimited = i.renewed := by
      rw [← unlimited]
      rfl
    exact .inl ⟨result, same ▸ read⟩
  · rcases i.renewed.deserialize_setLimits i.config.limits.atMost_unlimited bytes with same | cut
    · exact .inl ⟨result, same.trans read⟩
    · exact .inr ⟨unlimited, cut⟩

/-- An instance in compatible mode that knows a struct with one field of a shape, which may be null. -/
def shelving (limits : SizeLimits) (shape : Shape) : Instance :=
  [.setLimits limits, .setCompatible true,
    .registerStruct (some 1) ⟨.ofNames "demo" "T", none, false,
      [{ FieldDecl.ofShape "xs" shape with nullable := true }]⟩].foldl perform fresh

/-- A record whose field is not set. -/
def bare : Graph := ⟨#[.record (.ofType "demo.T")]⟩

theorem bare_shows {v : Value} (shows : bare.Shows (.handle ⟨0⟩) v) : v = .handle ⟨0⟩ ∨ v = .null := by
  rcases shows with rfl | rfl | ⟨h, member⟩
  · exact .inl rfl
  · exact .inr rfl
  · refine absurd member ?_
    obtain ⟨_ | index⟩ := h <;> exact List.not_mem_nil

theorem bare_sized : bare.Sized := by
  refine .of_nodes fun n member => ?_
  cases List.mem_singleton.1 member
  exact ⟨by decide, fun _ none => absurd none List.not_mem_nil⟩

/-- All that is told of a record of a short struct leads back to it. -/
theorem bare_retells {limits : SizeLimits} {shape : Shape} {s : StructType}
    (known : (shelving limits shape).registry.struct? "demo.T" = some s) (ident : s.id = some 1)
    (readable : s.Readable) (enums : (shelving limits shape).registry.enums = []) :
    (shelving limits shape).environment.Retells bare (.handle ⟨0⟩) := by
  have sent {t : StructType} (h : (shelving limits shape).environment.Sends bare t) : t = s := by
    obtain ⟨k, r, node, found⟩ := h
    have named := Graph.mem_typeNames node
    rw [show bare.typeNames = ["demo.T"] from rfl, List.mem_singleton] at named
    rw [Environment.structFor?_of_struct? (named ▸ known)] at found
    exact (Option.some.inj found).symm
  exact
    { readable := fun t sends => sent sends ▸ readable
      apart := fun t t' sends sends' _ => by rw [sent sends, sent sends']
      named := fun t sends none => by
        rw [sent sends, ident] at none
        cases none
      idents := fun name e id found => by
        have none : (shelving limits shape).environment.registry.enums = [] := enums
        rw [Registry.enum?, none] at found
        cases found
      unknown := fun name ordinal shows => by rcases bare_shows shows with same | same <;> cases same
      sized := bare_sized
      short := trivial
      nodes := fun hs once shows => by
        have only : hs ⊆ [⟨0⟩] := fun h member => by
          rcases bare_shows (shows h member) with same | same <;> cases same
          exact List.mem_singleton_self _
        have le := (List.subperm_of_subset once only).length_le
        exact Nat.le_trans le (by decide)
      types := by decide +kernel }

/-- The frame of the record, where its field is for lists of lists of texts. -/
def bareFrame : List UInt8 :=
  [212, 98, 6, 255, 28, 0, 8, 16, 27, 247, 246, 79, 166, 39, 1, 1, 6, 22, 88, 84, 120, 115, 253]

/-- The definition of a struct with lists of lists is read back, and a record of it is read without the
lists. -/
theorem own_frames_read_shelf : ∃ s, (shelving .unlimited (nested 2)).registry.HasStruct s ∧
    s.ReadsBack ∧ (shelving .unlimited (nested 2)).environment.Retells bare (.handle ⟨0⟩) ∧
      (shelving .unlimited (nested 2)).serialize bare (.handle ⟨0⟩) = .ok bareFrame ∧
        ∃ result, ((shelving .unlimited (nested 2)).renewed.deserialize bareFrame).1 = .ok result := by
  have known : ((shelving .unlimited (nested 2)).registry.struct? "demo.T").any (fun s =>
      s.id = some 1 ∧ s.Short) = true := by decide +kernel
  have enums : (shelving .unlimited (nested 2)).registry.enums = [] := by decide +kernel
  have written : (shelving .unlimited (nested 2)).serialize bare (.handle ⟨0⟩) = .ok bareFrame := by
    decide +kernel
  have unlimited : (shelving .unlimited (nested 2)).config.limits = .unlimited := by decide +kernel
  obtain ⟨s, here, checks⟩ := (Option.any_eq_true _ _).1 known
  obtain ⟨ident, short⟩ := of_decide_eq_true checks
  have shallow : ∀ f ∈ s.fields, f.toldShape.nesting ≤ FieldType.maxDepth := fun f member =>
    Nat.le_trans f.nesting_toldShape_le (short.nesting f member)
  have retells := bare_retells here ident ⟨short.brief, shallow⟩ enums
  have reachable : (shelving .unlimited (nested 2)).Reachable := ⟨_, rfl⟩
  obtain ⟨definitions, frames⟩ := reachable.own_frames_read (by decide +kernel) (by decide +kernel)
  have read := (frames bare (.handle ⟨0⟩) bareFrame retells written).resolve_right fun cut =>
    cut.1 unlimited
  exact ⟨s, ⟨_, here⟩, (definitions s ⟨_, here⟩ short.brief).1 shallow, retells, written, read⟩

/-- The definition of a struct with a list that nests one level deeper than a reader follows. -/
def deepDefinition : List UInt8 :=
  [71, 16, 124, 141, 85, 132, 133, 105, 1, 1, 6, 22] ++ List.replicate 64 88 ++ [84, 120, 115]

/-- An instance in compatible mode with two structs whose definitions have the same header. -/
def confounding : Instance :=
  let field (name : String) (shape : Shape) : FieldDecl :=
    { FieldDecl.ofShape name shape with nullable := true }
  [.setCompatible true,
    .registerStruct (some 1) ⟨.ofNames "demo" "A", none, false, [field "cufigfaa" .dynamic]⟩,
    .registerStruct (some 2) ⟨.ofNames "demo" "B", none, false,
      [field "vbcfnaaa" (.scalar .string)]⟩].foldl perform fresh

/-- A record of the first struct that holds one of the second. -/
def confounded : Graph :=
  ⟨#[.record ((Record.ofType "demo.A").set "cufigfaa" (.handle ⟨1⟩)),
    .record ((Record.ofType "demo.B").set "vbcfnaaa" (.string "xyz"))]⟩

/-- An instance in compatible mode that knows a struct without fields by a name that starts with a dot. -/
def prefixed : Instance :=
  [.setCompatible true, .registerStruct none ⟨.ofNames "" ".foo", none, false, []⟩].foldl perform fresh

/-- A definition that nests too deep is registered but refused, and a record is with it. A binary above
its ceiling is written but not read; so is a member of an unknown enumeration that has the name of a
struct. A definition is taken for another one with its header, and a name for another one without the
dot at its start. -/
theorem own_frames_refused :
    (((shelving .unlimited (nested 65)).registry.struct? "demo.T").bind (·.definition) =
        some deepDefinition ∧
      (TypeDefinition.decode.run' (.ofBytes deepDefinition)).isNone ∧
      carried (shelving .unlimited (nested 65)) (shelving .unlimited (nested 65)).renewed bare =
        some (.error .fieldTypeTooDeep)) ∧
    carried (shelving ⟨some 0, none, none, none⟩ (.scalar .binary))
        (shelving ⟨some 0, none, none, none⟩ (.scalar .binary)).renewed (holder "xs" (.binary [0]) []) =
      some (.error (.sizeLimit .binary 1 0)) ∧
    carried (holding true "x" none []) (holding true "x" none []).renewed
        (holder "x" (.enum "demo.T" 0) []) = some (.error (.strictInfoForCompatible "demo.T")) ∧
    carried confounding confounding.renewed confounded = some (.error (.trailingBytes 2)) ∧
    carried prefixed prefixed.renewed ⟨#[.record (.ofType ".foo")]⟩ =
      some (.error (.typeUnregistered "foo")) := by
  refine ⟨⟨?_, ?_, ?_⟩, ?_, ?_, ?_, ?_⟩ <;> decide +kernel

end Instance

end Graphwire
