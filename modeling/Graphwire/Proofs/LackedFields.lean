import Graphwire.Proofs.Recalling

/-!
# Fields that a reader lacks

A reader that has no field for one that was sent, or does not know the struct at all, is told of the field
by its entry in the definition alone. The entry leaves the shape open where every value carries its type,
and tells it otherwise, up to names, whose values always carry their types. So the reader takes just the
bytes of the field, whatever its marks, and no frame is refused for it. The one exception is a container
that is dynamic: its own type is told with the value, but the types of its parts are left to a shape that
the entry keeps back.
-/

namespace Graphwire

set_option autoImplicit false

open Read (Resumes RunsIf)

/-! ## What a reader makes of a struct -/

theorem Field.readableBy_none {f : Field} : f.ReadableBy none ↔ f.Whole := by
  refine ⟨fun readable => ?_, fun whole => .inr ⟨whole, fun own known => by cases known⟩⟩
  rcases readable with ⟨own, known, -⟩ | ⟨whole, -⟩
  · cases known
  · exact whole

/-- The fields of a struct are met by what the reader makes of them. -/
theorem StructType.suits_known {W R : Environment} (writer : W.Describing) (reader : R.Describing)
    {s ours : StructType} (sendable : s.Sendable) {header : Int} (distinguished : Distinguished fun t => t = s ∨ t = ours)
    (legible : s.Legible) (front : s.header? = some header)
    (found : R.registry.structOf? s.identity = some ours)
    (readable : ∀ f ∈ s.fields, f.ReadableBy (ours.counterpart? f)) :
    (R.registry.peerOf s header).Suits W R s := by
  have known := Registry.hasStruct_of_structOf? found
  have our := reader.sendable known
  obtain ⟨lookup, registered, described⟩ := sendable.described.fields
  obtain ⟨lookup', registered', described'⟩ := our.described.fields
  have met := fun f member => meets_peerField writer.compatible registered (described f member)
    our.keys registered' described' (readable f member)
  have told : R.registry.structOf? (s.told header).identity = some ours :=
    (s.identity_told header).symm ▸ found
  have own := Registry.own_peerOf told
  have layout := Registry.sameLayout_peerOf told
  by_cases same : ours.header? = some header
  · obtain ⟨header', after', defined⟩ := distinguished.defined ours (.inr rfl)
    cases Option.some.inj (defined.front.symm.trans same)
    have alike := legible.told_eq defined
      (distinguished.apart s ours (.inl rfl) (.inr rfl) (front.trans same.symm))
    refine .own (layout.trans (decide_eq_true same)) own known ?_
    have related := told_fields alike
    refine List.forall₂_iff_zip.2 ⟨related.length_eq, fun {f o} pair => ?_⟩
    obtain ⟨declared, entry⟩ := (List.forall₂_iff_zip.1 related).2 pair
    have member := (List.of_mem_zip pair).1
    obtain ⟨-, typed, shape⟩ :=
      peerField_of_entry registered' (described' o declared) our.keys declared entry
    have place := met f member
    rw [typed, shape, ← reader.compatible] at place
    exact ⟨(Field.flags_of_entry (described f member) (described' o declared) entry).2, place⟩
  · obtain ⟨fields, missing⟩ := Registry.fields_peerOf told our.keys sendable.keys
    refine .entries (.inl (layout.trans (decide_eq_false same))) ?_ fun ours' known' o member => ?_
    · rw [fields]
      refine List.forall₂_map_right_iff.2 (List.forall₂_same.2 fun f member => ?_)
      exact ⟨refMode_peerField (described f member), met f member⟩
    · cases own.symm.trans known'
      exact (described' _ member).default

/-- Our field for one that a struct has, if we have the struct and a field for it. -/
def Registry.fieldFor? (R : Registry) (s : StructType) (f : Field) : Option Field :=
  (R.structOf? s.identity).bind (·.counterpart? f)

/-- A field that is lacked is read by its entry alone. -/
theorem Registry.entry_mem_peerOf {R : Registry} {s : StructType} {header : Int}
    (theirs : DistinctKeys s.fields) (keys : ∀ ours, R.HasStruct ours → DistinctKeys ours.fields)
    {f : Field} (member : f ∈ s.fields) (lacked : R.fieldFor? s f = none) :
    PeerField.ofEntry none (.ofField f) none ∈ (R.peerOf s header).fields := by
  unfold fieldFor? at lacked
  cases found : R.structOf? s.identity with
  | none =>
    rw [(Registry.peerOf_unknown ((s.identity_told header).symm ▸ found)).2.2]
    exact List.mem_map_of_mem member
  | some ours =>
    have our := keys ours (Registry.hasStruct_of_structOf? found)
    have unmatched : ours.position? f = none := by
      rw [found, Option.bind_some, StructType.counterpart?] at lacked
      cases place : ours.position? f with
      | none => rfl
      | some i =>
        obtain ⟨own, at', -⟩ := (StructType.position?_eq_some_iff our).1 place
        rw [place, Option.bind_some, at'] at lacked
        cases lacked
    have same : ours.peerField f = .ofEntry none (.ofField f) none := by
      unfold StructType.peerField
      rw [unmatched]
      rfl
    rw [(fields_peerOf ((s.identity_told header).symm ▸ found) our theirs).1, ← same]
    exact List.mem_map_of_mem member

/-- Whether a field is taken by an entry, just in the bytes that are written for it, wherever it is
written and however far writer and reader may still go down. -/
def Environment.Skips (W R : Environment) (g : Graph) (root : Value) (s : StructType) (r : Record)
    (f : Field) (e : PeerField) : Prop :=
  ∀ levels levels', levels ≤ levels' →
    Returns W g root (Write.field W g (Write.payload W g levels) s r f) fun notes notes' bytes =>
      Resumes W R g notes notes' none
        (Read.marked R (Read.payload R levels') e.refMode e.typed e.shape) bytes

/-! ## Containers that are dynamic -/

namespace Read

/-- Whether a reader refuses the bytes, whatever follows. -/
def Refuses {α : Type} (m : Read α) (bytes : List UInt8) : Prop :=
  ∀ st, RunsIf False m st bytes fun _ _ => False

variable {env : Environment} {inner : ReadPayload} {shape : Shape} {slot : Option Nat}

/-- A header that leaves types out is refused where none is known. -/
theorem refuses_elementHeader {header : ElementHeader} {part : Option Shape}
    (declared : header.declared = true) (unknown : part.all (· = .dynamic) = true) :
    Refuses (elementHeader part) header.encode := by
  intro st
  have byte : header.toNat.toUInt8.toNat = header.toNat := by
    rcases header with ⟨_ | _, _ | _, _ | _⟩ <;> rfl
  have octet := Decode.yields_octet header.toNat.toUInt8
  rw [byte] at octet
  unfold elementHeader
  rw [← List.append_nil header.encode]
  refine .after (.decode octet) ?_
  rw [ElementHeader.ofNat?_toNat]
  dsimp only
  rw [if_pos (by simp [declared, unknown])]
  exact .throw id _

theorem refuses_items {node : List Value → Node} {n : Nat} {header : ElementHeader}
    {bytes : List UInt8} (small : n < 2 ^ 32) (some : n ≠ 0) (declared : header.declared = true)
    (unknown : shape.parts.1.all (· = .dynamic) = true) :
    Refuses (items env inner node shape slot) (Encode.counted n header.encode bytes) := by
  intro st
  unfold items Encode.counted
  rw [if_neg some]
  refine .after (.decode (Decode.yields_varuint32 small)) (.check False.elim fun _ _ => .opened ?_)
  rw [if_neg some]
  exact (refuses_elementHeader declared unknown _).bind fun _ _ never => never.elim

theorem refuses_entries {n : Nat} {keyHeader valueHeader : ElementHeader} {bytes : List UInt8}
    (small : n < 2 ^ 32) (some : n ≠ 0) (declared : keyHeader.declared = true)
    (unknown : shape.parts.1.all (· = .dynamic) = true) :
    Refuses (entries env inner shape slot)
      (Encode.counted n (keyHeader.encode ++ valueHeader.encode) bytes) := by
  intro st
  unfold entries Encode.counted
  rw [if_neg some, List.append_assoc]
  refine .after (.decode (Decode.yields_varuint32 small)) (.check False.elim fun _ _ => .opened ?_)
  rw [if_neg some]
  exact (refuses_elementHeader declared unknown _).bind fun _ _ never => never.elim

end Read

namespace Write

open Read (Refuses)

variable {W R : Environment} {g : Graph} (sized : g.Sized) {v : Value} {k : Handle}
  (value : v = .handle k) (full : (g.node k).contents ≠ []) {shape shape' : Shape}
  (declared : shape.parts.1.any W.isDeclared = true)
  (unknown : shape'.parts.1.all (· = .dynamic) = true) {ws : WriteState}

include sized value full declared unknown

/-- The parts of a container are refused where their types are left out and none is known. -/
theorem ensures_container_refused {write : Option WritePayload} {t : TypeId} :
    Ensures (container W g write t shape v) ws fun bytes _ => ∀ read slot,
      Refuses (Read.container R read t shape' slot) bytes := by
  subst value
  have bound := sized.lengths k
  refine ensures_container (fun payload vs _ found kind => ?_) (fun payload vs _ found kind => ?_)
    fun payload pairs _ found kind => ?_
  all_goals
    have here : g.node k = _ := Option.some.inj found
    subst kind
    rw [here] at bound full
  · exact ensures_items fun bytes _ _ _ _ =>
      Read.refuses_items bound (mt List.length_eq_zero_iff.1 full) declared unknown
  · exact ensures_items fun bytes _ _ _ _ =>
      Read.refuses_items bound (mt List.length_eq_zero_iff.1 full) declared unknown
  · have present : pairs.length ≠ 0 := fun none => full (by rw [List.length_eq_zero_iff.1 none]; rfl)
    exact ensures_entries fun bytes _ _ _ _ => Read.refuses_entries bound present declared unknown

theorem ensures_payload_refused {t : TypeId} (container : t.isContainer = true) (levels levels' : Nat) :
    Ensures (payload W g levels (.builtin t) shape v) ws fun bytes _ => ∀ slot,
      Refuses (Read.payload R levels' (.builtin t) shape' slot) bytes := by
  have layers (write : Option WritePayload) (read : Option ReadPayload) :
      Ensures (layer W g write (.builtin t) shape v) ws fun bytes _ => ∀ slot,
        Refuses (Read.layer R read (.builtin t) shape' slot) bytes := by
    simp only [layer, Read.layer, container, if_true]
    refine (ensures_container_refused (R := R) sized value full declared unknown).mono ?_
    intro bytes _ refused slot st
    exact .check False.elim fun inner _ => refused inner slot st
  cases levels <;> cases levels' <;> exact layers _ _

/-- So is the whole container, behind its type. -/
theorem ensures_typed_refused {t : TypeId} (inferred : g.inferType? v = some t)
    (container : t.isContainer = true) (levels levels' : Nat) :
    Ensures (typed W g (payload W g levels) true shape v) ws fun bytes _ => ∀ slot,
      Refuses (Read.typed R (Read.payload R levels') true shape' slot) bytes := by
  obtain ⟨small, builtin⟩ := Graph.isWireBuiltin_of_inferType? inferred
  have info : Ensures (typeInfo W g v) ws fun i _ => i = (t.encode, .builtin t) := by
    unfold typeInfo
    split
    · rename_i isRecord
      rw [Graph.asRecord?_of_inferType? inferred] at isRecord
      cases isRecord
    · cases inferred
    · rw [inferred]
      exact .pure rfl
  unfold typed
  refine info.bind ?_
  rintro _ ws₁ rfl
  refine (ensures_payload_refused (R := R) sized value full declared unknown container levels
    levels').bind ?_
  intro bytes _ refused
  refine .pure fun slot st => ?_
  rw [Read.typed_eq, if_pos rfl]
  exact .after (Read.takes_builtinInfo small builtin) (refused slot st)

/-- A container that has no number yet is refused behind its marker. -/
theorem ensures_marked_refused {t : TypeId} (inferred : g.inferType? v = some t)
    (container : t.isContainer = true) (levels levels' : Nat) {mode : RefMode}
    (new : mode = .tracking → k ∉ ws.seen.handles) :
    Ensures (marked W g (payload W g levels) mode true shape v) ws fun bytes _ =>
      Refuses (Read.marked R (Read.payload R levels') mode true shape') bytes := by
  have whole (ws : WriteState) :
      Ensures (typed W g (payload W g levels) true shape v) ws fun bytes _ => ∀ slot,
        Refuses (Read.typed R (Read.payload R levels') true shape' slot) bytes :=
    ensures_typed_refused sized value full declared unknown inferred container levels levels'
  by_cases tracked : mode = .tracking
  · subst tracked value
    refine ensures_marked (SeenHandles.mark_new (new rfl)) nofun fun _ => (whole _).mono ?_
    intro bytes _ refused st
    exact Read.runsIf_marked_newRef (refused _ _)
  · refine ensures_marked_untracked tracked (fun null _ => ?_) fun _ => (whole ws).mono ?_
    · cases value.symm.trans null
    · intro bytes _ refused
      refine ⟨fun markers st => ?_, fun plain st => ?_⟩
      · exact Read.runsIf_marked_notNull (by simp [markers]) (refused none st)
      · subst plain
        exact refused none st

end Write

/-- What is written of a container that is dynamic is refused by the entry of its field, if the container
has parts and leaves out their types. -/
theorem Environment.Describing.dynamic_container_refused {W R : Environment} (writer : W.Describing)
    {g : Graph} (sized : g.Sized) {r : Record} {s : StructType} (written : W.structFor? r = some s)
    {f : Field} (member : f ∈ s.fields) (dynamic : f.dynamic = true) {k : Handle}
    (value : r.value f.name = .handle k) {t : TypeId} (inferred : g.inferType? (.handle k) = some t)
    (container : t.isContainer = true) (full : (g.node k).contents ≠ [])
    (declared : f.shape.parts.1.any W.isDeclared = true) (levels levels' : Nat) {ws : WriteState}
    (new : f.refMode = .tracking → k ∉ ws.seen.handles) :
    Write.Ensures (Write.field W g (Write.payload W g levels) s r f) ws fun bytes _ =>
      Read.Refuses (Read.marked R (Read.payload R levels')
        (PeerField.ofEntry none (.ofField f) none).refMode
        (PeerField.ofEntry none (.ofField f) none).typed
        (PeerField.ofEntry none (.ofField f) none).shape) bytes := by
  obtain ⟨-, sendable, -⟩ := writer.cases_structFor? written
  obtain ⟨lookup, registered, described⟩ := sendable.described.fields
  have told : f.toldShape.erased = .dynamic := by
    rw [Field.toldShape, if_pos dynamic]
    rfl
  have typed : (PeerField.ofEntry none (.ofField f) none).typed = true := by
    show ((FieldEntry.ofField f).type.type = .unknown || (FieldEntry.ofField f).type.type.isUser) = true
    rw [(described f member).typed_entry registered, decide_eq_true told]
  have shape : (PeerField.ofEntry none (.ofField f) none).shape = .dynamic :=
    ((described f member).toShape_entry registered).trans told
  rw [(described f member).refMode_entry none none, typed, shape]
  unfold Write.field
  dsimp only
  split
  · exact .throw _
  · rw [Field.hasTypeInfo, dynamic, Bool.true_or]
    exact Write.ensures_marked_refused sized value full declared rfl (value ▸ inferred) container levels
      levels' new

/-! ## Readers with fewer fields -/

namespace Instance

/-- Whether a writer has outgrown a fresh reader by fields alone. Both are in compatible mode, and both
track references or neither does; the reader may go down as far and has no ceilings. It has the fields
that are sent, up to containers that are dynamic, or lacks them, and must know a struct only if it does;
its enumerations are those of the writer. Definitions can be read and are told apart by their headers, and
all that is counted fits the format. -/
structure Outgrows (W R : Instance) (g : Graph) (v : Value) : Prop where
  writer : W.Reachable
  reader : R.Reachable
  usable : R.fault = none
  fresh : R.cache = .empty
  compatible : W.config.compatible = true ∧ R.config.compatible = true
  references : W.config.trackRef = R.config.trackRef
  deep : W.config.maxDepth ≤ R.config.maxDepth
  unlimited : R.config.limits = .unlimited
  fields : ∀ s, W.environment.Sends g s → ∀ f ∈ s.fields, f.ReadableBy (R.registry.fieldFor? s f)
  lenient : ∀ s, W.environment.Sends g s → R.registry.structOf? s.identity = none →
    R.config.requireRegistration = false
  enums : ∀ name ordinal, g.Shows v (.enum name ordinal) →
    R.registry.enum? name = W.registry.enum? name
  idents : ∀ name e id, W.registry.enum? name = some e → e.id = some id → id < 2 ^ 32
  unknown : ∀ name ordinal, g.Shows v (.enum name ordinal) → W.registry.enum? name = none →
    R.config.requireRegistration = false ∧ R.registry.Recovers name
  readable : ∀ s, W.environment.Sends g s → s.Readable
  brief : ∀ s, R.registry.HasStruct s → s.Brief
  apart : HeadersApart fun s => W.environment.Sends g s ∨ R.registry.HasStruct s
  sized : g.Sized
  short : v.Short
  nodes : ∀ hs : List Handle, hs.Nodup → (∀ h ∈ hs, g.Shows v (.handle h)) → hs.length ≤ 2 ^ 32
  types : g.typeNames.eraseDups.length ≤ 2 ^ 31

variable {W R : Instance} {g : Graph} {v : Value}

/-- A reader that was outgrown is told all that it needs. -/
theorem Outgrows.instructs (grows : W.Outgrows R g v) (sane : W.fault = none) :
    (W.setStrategy .interpreted).environment.Instructs (R.setStrategy .interpreted).environment g v := by
  have writer := grows.writer.describing sane grows.compatible.1
  have reader := grows.reader.describing grows.usable grows.compatible.2
  exact
    { writer
      reader
      unlimited := grows.unlimited
      readable := grows.readable
      apart := fun s s' sends sends' => grows.apart s s' (.inl sends) (.inl sends')
      suits := fun s sends => by
        have sendable := writer.sendable_of_sends sends
        have readable := grows.readable s sends
        obtain ⟨header, after, defined⟩ := sendable.described.defined_of_brief readable.toBrief
        rw [defined.peer_eq]
        have fields := grows.fields s sends
        unfold Registry.fieldFor? at fields
        cases found : R.registry.structOf? s.identity with
        | none =>
          rw [found] at fields
          have absent : R.registry.structOf? (s.told header).identity = none :=
            (s.identity_told header).symm ▸ found
          exact sendable.suits_unknown writer.compatible absent fun f member =>
            Field.readableBy_none.1 (fields f member)
        | some ours =>
          rw [found] at fields
          have known := Registry.hasStruct_of_structOf? found
          have our := (reader.described ours known).defined_of_brief (grows.brief ours known)
          refine StructType.suits_known writer reader sendable ⟨?_, ?_⟩
            (sendable.described.legible readable) defined.front found fields
          · rintro t (rfl | rfl)
            · exact ⟨header, after, defined⟩
            · exact our
          · rintro t t' (rfl | rfl) (rfl | rfl) same
            · rfl
            · exact grows.apart _ _ (.inl sends) (.inr known) same
            · exact grows.apart _ _ (.inr known) (.inl sends) same
            · rfl
      admitted := fun r s sends _ _ absent =>
        grows.lenient s sends ((s.identity_told _).symm ▸ absent)
      enums := fun name ordinal e shows found =>
        ⟨(grows.enums name ordinal shows).trans found, fun id => grows.idents name e id found⟩
      unknown := fun name ordinal shows unknown _ => by
        obtain ⟨lenient, recovers⟩ := grows.unknown name ordinal shows unknown
        exact ⟨lenient, (grows.enums name ordinal shows).trans unknown, recovers⟩
      sized := grows.sized
      short := grows.short
      nodes := grows.nodes
      types := grows.types }

/-- A field that a reader lacks is taken by its entry in the definition, just in the bytes that are written
for it, wherever it is written; and no frame is refused. -/
theorem Outgrows.lacked_fields_read (grows : W.Outgrows R g v) {bytes : List UInt8}
    (written : W.serialize g v = .ok bytes) :
    (∀ h r s, g.node h = .record r → W.environment.structFor? r = some s → ∀ f ∈ s.fields,
      R.registry.fieldFor? s f = none → ∃ e ∈ (R.registry.peer s).fields,
        e = .ofEntry none (.ofField f) none ∧ (W.setStrategy .interpreted).environment.Skips
          (R.setStrategy .interpreted).environment g v s r f e) ∧
      ∃ result, (R.deserialize bytes).1 = .ok result := by
  have sane := sane_of_serialize written
  have instructs := grows.instructs sane
  constructor
  · intro h r s here sent f member lacked
    have sends : W.environment.Sends g s := ⟨h, r, here, sent⟩
    have sendable := instructs.writer.sendable_of_sends sends
    refine ⟨_, Registry.entry_mem_peerOf sendable.keys
      (fun ours known => (instructs.reader.sendable known).keys) member lacked, rfl, ?_⟩
    intro levels levels' within
    obtain ⟨lookup, registered, described⟩ := sendable.described.fields
    have whole := Field.readableBy_none.1 (lacked ▸ grows.fields s sends f member)
    exact (Answers.payload instructs within).field instructs here sent
      ⟨(described f member).refMode_entry none none,
        (described f member).meets_entry registered instructs.writer.compatible whole⟩
  · have again : (W.setStrategy .interpreted).serialize g v = .ok bytes :=
      (grows.writer.serialize_setStrategy .interpreted W.config.strategy g v).trans written
    obtain ⟨result, read⟩ := instructs.deserialize_written (W := W.setStrategy .interpreted)
      (R := R.setStrategy .interpreted) grows.usable grows.fresh grows.references grows.deep again
    exact ⟨result, grows.reader.deserialize_eq_ok read⟩

theorem listedAgain_shows {v : Value} (shows : listedAgain.Shows (.handle ⟨0⟩) v) :
    v ∈ [.null, .handle ⟨0⟩, .handle ⟨1⟩, .handle ⟨2⟩] := by
  rcases shows with rfl | rfl | ⟨h, member⟩
  · decide
  · decide
  · obtain ⟨_ | _ | _ | index⟩ := h
    · exact (by decide : ∀ v ∈ (listedAgain.node ⟨0⟩).contents, _) v member
    · exact (by decide : ∀ v ∈ (listedAgain.node ⟨1⟩).contents, _) v member
    · exact absurd member List.not_mem_nil
    · exact absurd member List.not_mem_nil

/-- A writer with a field for anything has outgrown a reader without it. -/
theorem outgrows_tracing : (tracing ["x"]).Outgrows (tracing []) listedAgain (.handle ⟨0⟩) := by
  have tracks := tracks_tracing
  have known : ((tracing ["x"]).registry.struct? "demo.T").any (fun w => w.Short ∧
      ((tracing []).registry.structOf? w.identity).isSome ∧ ∀ f ∈ w.fields,
        f.shape.parts = (none, none) ∧ (tracing []).registry.fieldFor? w f = none) = true := by
    decide +kernel
  have typeNames : listedAgain.typeNames = ["demo.T"] := by decide +kernel
  have enums : (tracing ["x"]).registry.enums = [] ∧ (tracing []).registry.enums = [] := by
    decide +kernel
  obtain ⟨w, old, checks⟩ := (Option.any_eq_true _ _).1 known
  obtain ⟨short, found, fields⟩ := of_decide_eq_true checks
  have sent {t : StructType} (h : (tracing ["x"]).environment.Sends listedAgain t) : t = w :=
    h.eq_of_typeNames typeNames old
  have unlisted {name : String} {ordinal : Nat}
      (shows : listedAgain.Shows (.handle ⟨0⟩) (.enum name ordinal)) : False := by
    simpa using listedAgain_shows shows
  exact
    { writer := tracks.writer
      reader := tracks.reader
      usable := by decide +kernel
      fresh := tracks.fresh
      compatible := tracks.compatible
      references := tracks.tracked.1.trans tracks.tracked.2.symm
      deep := by decide +kernel
      unlimited := tracks.unlimited
      fields := fun s sends f member => by
        cases sent sends
        obtain ⟨whole, lacked⟩ := fields f member
        rw [lacked]
        exact Field.readableBy_none.2 fun _ => whole
      lenient := fun s sends none => by
        cases sent sends
        rw [none] at found
        cases found
      enums := fun _ _ shows => (unlisted shows).elim
      idents := fun name e id found => by
        rw [Registry.enum?, enums.1] at found
        cases found
      unknown := fun _ _ shows => (unlisted shows).elim
      readable := fun s sends => sent sends ▸ ⟨short.brief, fun f member =>
        Nat.le_trans f.nesting_toldShape_le (short.nesting f member)⟩
      brief := fun s known => tracks.brief s (.inr known)
      apart := tracks.apart
      sized := tracks.sized
      short := trivial
      nodes := fun hs once shows => by
        have only : hs ⊆ [⟨0⟩, ⟨1⟩, ⟨2⟩] := fun h member => by
          simpa using listedAgain_shows (shows h member)
        exact Nat.le_trans (List.subperm_of_subset once only).length_le (by decide)
      types := tracks.few }

/-- The list with the record is taken by the reader without the field, whose list it skips. -/
theorem lacked_fields_read_traced : ∃ bytes r s f e,
    (tracing ["x"]).Outgrows (tracing []) listedAgain (.handle ⟨0⟩) ∧
      (tracing ["x"]).serialize listedAgain (.handle ⟨0⟩) = .ok bytes ∧
        listedAgain.node ⟨1⟩ = .record r ∧ f ∈ s.fields ∧ e ∈ ((tracing []).registry.peer s).fields ∧
          ((tracing ["x"]).setStrategy .interpreted).environment.Skips
            ((tracing []).setStrategy .interpreted).environment listedAgain (.handle ⟨0⟩) s r f e ∧
              ∃ result, ((tracing []).deserialize bytes).1 = .ok result := by
  have written : (tracing ["x"]).serialize listedAgain (.handle ⟨0⟩) = .ok [212, 98, 6, 0, 22, 3, 1, 0,
      28, 0, 5, 208, 26, 131, 246, 82, 134, 49, 1, 1, 3, 0, 120, 0, 22, 0, 254, 2, 254, 2] := by
    decide +kernel
  have known : ((tracing ["x"]).registry.struct? "demo.T").any (fun w => w.fields.any fun f =>
      (tracing []).registry.fieldFor? w f = none) = true := by decide +kernel
  obtain ⟨s, found, any⟩ := (Option.any_eq_true _ _).1 known
  obtain ⟨f, member, lacked⟩ := List.any_eq_true.1 any
  obtain ⟨skipped, read⟩ := outgrows_tracing.lacked_fields_read written
  obtain ⟨e, entry, -, skips⟩ := skipped ⟨1⟩ _ s rfl (Environment.structFor?_of_struct? found) f member
    (of_decide_eq_true lacked)
  exact ⟨_, _, s, f, e, outgrows_tracing, written, rfl, member, entry, skips, read⟩

end Instance

end Graphwire
