import Graphwire.Proofs.Exchange

/-!
# Records in two versions

A writer and a reader know one record type, each with its own fields, and share all other types. The
reader receives the writer's definition and reads the record by it: it holds what was sent for the
fields that both have, and the defaults of those that only the reader has. If the definitions are the
same, the record is read like one of our own, with the same outcome.
-/

namespace Graphwire

set_option autoImplicit false

/-! ## Revised records -/

/-- Our field with what was sent for a field of a peer, if we have a counterpart. -/
def StructType.slots (s : StructType) (sent : Field → Tree) (f : Field) :
    List (Field × Option Tree) :=
  ((s.counterpart? f).map (·, some (sent f))).toList

/-- Our fields with what was sent for the fields of a peer: first the counterparts of the peer's
fields, then the fields that are missing. -/
def StructType.receipts (s : StructType) (fs : List Field) (sent : Field → Tree) :
    List (Field × Option Tree) :=
  fs.flatMap (s.slots sent) ++ ((s.missing fs).filterMap (s.fields[·]?)).map (·, none)

theorem StructType.receipts_eq (s : StructType) (fs : List Field) (sent : Field → Tree) :
    s.receipts fs sent = (s.supplies fs).map fun slot => (slot.1, slot.2.map sent) := by
  have front : fs.flatMap (s.slots sent) =
      (fs.filterMap fun f => (s.counterpart? f).map (·, some f)).map
        fun slot => (slot.1, slot.2.map sent) := by
    induction fs with
    | nil => rfl
    | cons f fs ih =>
      rw [List.flatMap_cons, List.filterMap_cons, ih, slots]
      cases s.counterpart? f <;> rfl
  rw [receipts, supplies, List.map_append, front, List.map_map]
  rfl

theorem StructType.nodup_receipts (s : StructType) {fs : List Field} (sent : Field → Tree)
    (keys : DistinctKeys s.fields) (names : (s.fields.map (·.name)).Nodup)
    (theirs : DistinctKeys fs) : ((s.receipts fs sent).map (·.1.name)).Nodup := by
  rw [receipts_eq, List.map_map]
  exact nodup_supplies keys names theirs

theorem StructType.nodup_slots (s : StructType) {fs : List Field} (sent : Field → Tree)
    (keys : DistinctKeys s.fields) (names : (s.fields.map (·.name)).Nodup)
    (theirs : DistinctKeys fs) : ((fs.flatMap (s.slots sent)).map (·.1.name)).Nodup :=
  List.Nodup.of_append_left (List.map_append ▸ s.nodup_receipts sent keys names theirs)

/-- Whether a record of ours holds what was sent for the fields of a peer: under a field with a
counterpart what its counterpart sent, under any other field the default, and nothing else. -/
structure Record.Revised (g : Graph) (s : StructType) (fs : List Field) (sent : Field → Tree)
    (r : Record) : Prop where
  typeName : r.typeName = s.qualifiedName
  kept : ∀ f ∈ fs, ∀ own ∈ s.fields, f.Corresponds own →
    own.Gets g (some (sent f)) (r.get? own.name)
  filled : ∀ own ∈ s.fields, (∀ f ∈ fs, ¬f.Corresponds own) → own.Gets g none (r.get? own.name)
  nothingElse : ∀ name, name ∉ s.fields.map (·.name) → r.get? name = none

/-- Whether a value is such a record. -/
def Value.Revised (g : Graph) (s : StructType) (fs : List Field) (sent : Field → Tree) (v : Value) :
    Prop := ∃ r, g.asRecord? v = some r ∧ r.Revised g s fs sent

/-- Whether nothing is sent as null that may not be. -/
def SentInFull (fs : List Field) (sent : Field → Tree) : Prop :=
  ∀ f ∈ fs, f.nullable = false → (sent f).isNull = false

theorem Record.Received.revised {g : Graph} {s : StructType} {fs : List Field} {sent : Field → Tree}
    {r : Record} (keys : DistinctKeys s.fields)
    (received : Received g (s.receipts fs sent) (.ofType s.qualifiedName) r) :
    r.Revised g s fs sent := by
  rw [StructType.receipts_eq] at received
  have slot {own : Field} {f : Option Field} (supplied : (own, f) ∈ s.supplies fs) :
      own.Gets g (f.map sent) (r.get? own.name) :=
    received.field _ (List.mem_map_of_mem supplied) rfl
  refine ⟨received.typeName, fun f declared own member corresponds => ?_, fun own member none => ?_,
    fun name absent => ?_⟩
  · exact slot ((StructType.mem_supplies keys member).1 f declared corresponds)
  · exact slot ((StructType.mem_supplies keys member).2 none)
  · refine received.other name fun supplied => absent ?_
    obtain ⟨_, member, rfl⟩ := List.mem_map.1 supplied
    obtain ⟨supply, chosen, rfl⟩ := List.mem_map.1 member
    exact List.mem_map_of_mem (StructType.mem_of_mem_supplies keys chosen)

/-! ## Records that are told -/

/-- Whether a reader takes a struct of its own for a struct of a writer. -/
structure Environment.Revises (R : Environment) (w s : StructType) : Prop where
  known : R.registry.HasStruct s
  told : ∀ header, R.registry.structOf? (w.told header).identity = some s
  brief : s.Brief
  plain : w.Plain ∧ s.Plain
  apart : w.header? = s.header? → w.definition = s.definition

/-- What comes out of the tree of a field. -/
def Environment.sentField (W : Environment) (trees : List (String × Tree)) (f : Field) : Tree :=
  (Tree.fieldOf trees f.name).carried W (W.fieldPlace f)

/-- A field that may not be null is not written as null. -/
theorem Write.ensures_present {env : Environment} {g : Graph} {payload : WritePayload}
    {s : StructType} {r : Record} {f : Field} (ws : WriteState) :
    Ensures (field env g payload s r f) ws fun _ _ =>
      f.refMode = .none → (r.value f.name).isNull = false := by
  unfold field
  dsimp only
  split
  · exact .throw _
  · rename_i present
    intro bytes ws' _ mode
    simpa [mode] using present

theorem Write.ensures_allPresent {env : Environment} {g : Graph} {payload : WritePayload}
    {s : StructType} {r : Record} {fs : List Field} (ws : WriteState) :
    Ensures (concat (field env g payload s r) fs) ws fun _ _ =>
      ∀ f ∈ fs, f.refMode = .none → (r.value f.name).isNull = false := by
  induction fs generalizing ws with
  | nil => exact .pure fun _ member => absurd member List.not_mem_nil
  | cons f fs ih =>
    refine (ensures_present ws).bind fun _ ws₁ here => (ih ws₁).bind fun _ _ there => .pure ?_
    exact List.forall_mem_cons.2 ⟨here, there⟩

namespace Environment.Exchanges

open Write (Ensures)
open Read (Builds Edits)

variable {W R : Environment} {g : Graph} {name : String} (exchanges : W.Exchanges R g name)
  {w s : StructType} (known : W.registry.HasStruct w) (revises : R.Revises w s) {r : Record}
  {trees : List (String × Tree)}
  (unfolds : ∀ f ∈ w.fields, g.Unfolds (r.value f.name) (Tree.fieldOf trees f.name))
  (shared : ∀ f ∈ w.fields, (Tree.fieldOf trees f.name).Shared W R name)
  {payload : WritePayload} {inner : ReadPayload}
  (delivers : Delivers g (W.exchange R g name) Place.Meets (W.InTune R g) payload inner)

include exchanges known

theorem untracked_field {f : Field} (member : f ∈ w.fields) : f.tracked = false := by
  obtain ⟨n, found⟩ := known
  have resolved := (exchanges.writer.built.built found).resolved f member
  rw [exchanges.untracked] at resolved
  exact resolved.untracked

include revises

/-- What is written of a field meets what the reader makes of its entry. -/
theorem meets_field {f : Field} (member : f ∈ w.fields) :
    (W.fieldPlace f).Meets ⟨(s.peerField f).typed, (s.peerField f).shape⟩ := by
  have sendable := exchanges.reader.sendable revises.known
  obtain ⟨ours, registered', fields'⟩ := sendable.described.fields
  obtain ⟨theirs, registered, fields⟩ := (exchanges.writer.sendable known).described.fields
  exact StructType.meets_peerField exchanges.writer.compatible registered (fields f member)
    sendable.keys registered' fields'
    (StructType.readable_of_whole sendable.keys (revises.plain.1 f member) revises.plain.2)

include unfolds shared delivers

/-- What is written of a field is read where a reader is told of the field. -/
theorem ensures_field {f : Field} (member : f ∈ w.fields) (ws : WriteState) :
    Ensures (Write.field W g payload w r f) ws fun bytes ws' =>
      Builds (W.InTune R g) ws ws'
        (Read.marked R inner f.refMode (s.peerField f).typed (s.peerField f).shape) bytes
        fun g' v => g'.Unfolds v (W.sentField trees f) := by
  have kind : w.isCompatible = W.config.compatible := by
    rw [exchanges.writer.compatible]
    exact (exchanges.writer.sendable known).isCompatible
  exact exchanges.channel.field delivers kind (exchanges.meets_field known revises member)
    (Field.refMode_ne_tracking (exchanges.untracked_field known member)) (unfolds f member)
    ⟨tellsNames_fieldPlace exchanges.writer.compatible f, shared f member⟩ ws

/-- What is written of the fields is read by the fields of a peer. -/
theorem ensures_peerFields {p : PeerStruct} (own : p.own = some s) (ws : WriteState) :
    Ensures (Write.concat (Write.field W g payload w r) w.fields) ws fun bytes ws' =>
      Edits (W.InTune R g) ws ws'
        (fun h => Read.each (Read.peerField R inner p h) (w.fields.map s.peerField)) bytes fun g' =>
          Record.Received g' (w.fields.flatMap (s.slots (W.sentField trees))) := by
  have reader := exchanges.reader.sendable revises.known
  have writer := exchanges.writer.sendable known
  obtain ⟨_, _, fields⟩ := reader.described.fields
  obtain ⟨_, _, fields'⟩ := writer.described.fields
  have related : List.Forall₂ (fun f p => p = s.peerField f) w.fields (w.fields.map s.peerField) :=
    List.forall₂_map_right_iff.2 (List.forall₂_same.2 fun _ _ => rfl)
  refine Read.ensures_edits related (fun f p' member same ws => ?_)
    (s.nodup_slots (W.sentField trees) reader.keys reader.names writer.keys) ws
  subst same
  have read := exchanges.ensures_field known revises unfolds shared delivers member ws
  rw [← StructType.refMode_peerField (s := s) (fields' f member)] at read
  refine read.mono fun bytes ws' builds => ?_
  exact Read.edits_peerField (InTune.definitional W R g) own
    (fun own member => (fields own member).default) builds

/-- A record with another layout is read by the fields of its writer. -/
theorem ensures_reconciled (header : Int) (ws : WriteState) :
    Ensures (Write.concat (Write.field W g payload w r) w.fields) ws fun bytes ws' =>
      Builds (W.InTune R g) ws ws'
        (Read.reconciled R inner (R.registry.peerOf w header) none) bytes fun g' v =>
          v.Revised g' s w.fields (W.sentField trees) := by
  have told := revises.told header
  have own := Registry.own_peerOf told
  have reader := exchanges.reader.sendable revises.known
  have writer := exchanges.writer.sendable known
  obtain ⟨_, _, fields⟩ := reader.described.fields
  obtain ⟨peerFields, missing⟩ := Registry.fields_peerOf told reader.keys writer.keys
  refine (exchanges.ensures_peerFields known revises unfolds shared delivers own ws).mono
    fun bytes ws' edits => ?_
  rw [← peerFields] at edits
  refine (Read.builds_reconciled (InTune.definitional W R g) own edits (by rw [missing])
    (fun own member => (fields own member).default)
    (s.nodup_receipts (W.sentField trees) reader.keys reader.names writer.keys)).mono
    fun g' v built => ?_
  obtain ⟨k, r', rfl, node, received⟩ := built
  rw [Registry.typeName_peerOf told] at received
  exact ⟨r', Graph.asRecord?_of_node node, received.revised reader.keys⟩

/-- What is written of the fields is read by our own, where they are told alike. -/
theorem ensures_ownFields {header : Int} (same : w.told header = s.told header) (ws : WriteState) :
    Ensures (Write.concat (Write.field W g payload w r) w.fields) ws fun bytes ws' =>
      Edits (W.InTune R g) ws ws'
        (fun h => Read.each (Read.field R inner s h) s.fields) bytes fun g' =>
          Record.Received g' (w.fields.flatMap (s.slots (W.sentField trees))) := by
  have reader := exchanges.reader.sendable revises.known
  have writer := exchanges.writer.sendable known
  obtain ⟨_, registered, fields⟩ := reader.described.fields
  obtain ⟨_, _, fields'⟩ := writer.described.fields
  refine Read.ensures_edits (StructType.told_fields same) (fun f own member entry ws => ?_)
    (s.nodup_slots (W.sentField trees) reader.keys reader.names writer.keys) ws
  obtain ⟨ours, entry⟩ := entry
  obtain ⟨counterpart, typed, shape⟩ :=
    StructType.peerField_of_entry registered (fields own ours) reader.keys ours entry
  obtain ⟨nullable, mode⟩ := Field.flags_of_entry (fields' f member) (fields own ours) entry
  have read := exchanges.ensures_field known revises unfolds shared delivers member ws
  rw [typed, shape] at read
  refine (read.and (Write.ensures_present ws)).mono fun bytes ws' both => ?_
  obtain ⟨builds, present⟩ := both
  rw [← mode] at builds
  rw [StructType.slots, counterpart]
  refine Read.edits_ownField (InTune.definitional W R g) (fun required => ?_)
    (by rw [reader.isCompatible]; exact builds)
  have mode := Field.refMode_of_untracked (exchanges.untracked_field known member)
  rw [← nullable, required] at mode
  rw [sentField, Tree.isNull_carried]
  exact (unfolds f member).isNull.trans (present mode)

/-- A record with our layout is read like one of our own. -/
theorem ensures_sameLayout {header : Int} (same : w.told header = s.told header) (ws : WriteState) :
    Ensures (Write.concat (Write.field W g payload w r) w.fields) ws fun bytes ws' =>
      Builds (W.InTune R g) ws ws' (Read.record R inner s false none) bytes
        fun g' v => v.Revised g' s w.fields (W.sentField trees) := by
  have keys := (exchanges.reader.sendable revises.known).keys
  obtain ⟨_, found⟩ := revises.known
  have built := exchanges.reader.built.built found
  have receipts : s.receipts w.fields (W.sentField trees) =
      w.fields.flatMap (s.slots (W.sentField trees)) := by
    rw [StructType.receipts, StructType.missing_eq_nil same keys]
    exact List.append_nil _
  refine (exchanges.ensures_ownFields known revises unfolds shared delivers same ws).mono
    fun bytes ws' edits st tune => ?_
  refine Read.runs_record exchanges.reader.strategy built.version ?_
  apply (edits.opened (InTune.definitional W R g) tune).mono
  rintro _ st' ⟨tune', ext, r', told⟩
  refine ⟨tune', ext, fun g' agrees => ?_⟩
  obtain ⟨node, received⟩ := told g' agrees
  exact ⟨r', Graph.asRecord?_of_node node, (receipts ▸ received).revised keys⟩

/-- What is written of a record is read by a reader that is told of its struct. -/
theorem ensures_record (readable : w.Readable) (ws : WriteState) :
    Ensures (Write.record W g payload w false r) ws fun bytes ws' =>
      Builds (W.InTune R g) ws ws'
        (Read.peerRecord R inner (R.registry.peer w) none) bytes fun g' v =>
          SentInFull w.fields (W.sentField trees) ∧ v.Revised g' s w.fields (W.sentField trees) := by
  have described := (exchanges.writer.sendable known).described
  obtain ⟨header, after, defined⟩ := described.defined_of_brief readable.toBrief
  have told := revises.told header
  have own := Registry.own_peerOf told
  have layout := Registry.sameLayout_peerOf told
  rw [defined.peer_eq]
  have read : Ensures (Write.concat (Write.field W g payload w r) w.fields) ws fun bytes ws' =>
      Builds (W.InTune R g) ws ws'
        (Read.peerRecord R inner (R.registry.peerOf w header) none) bytes fun g' v =>
          v.Revised g' s w.fields (W.sentField trees) := by
    unfold Read.peerRecord
    rw [own, layout]
    by_cases same : s.header? = some header
    · obtain ⟨header', after', defined'⟩ :=
        (exchanges.reader.sendable revises.known).described.defined_of_brief revises.brief
      cases defined'.front.symm.trans same
      have alike := (described.legible readable).told_eq defined'
        (revises.apart (defined.front.trans same.symm))
      rw [decide_eq_true same]
      exact exchanges.ensures_sameLayout known revises unfolds shared delivers alike ws
    · rw [decide_eq_false same]
      exact exchanges.ensures_reconciled known revises unfolds shared delivers header ws
  refine Write.ensures_record exchanges.writer.strategy ?_
  refine (read.and (Write.ensures_allPresent ws)).mono fun bytes ws' both => ?_
  obtain ⟨builds, present⟩ := both
  refine builds.mono fun g' v built => ⟨fun f member required => ?_, built⟩
  have mode := Field.refMode_of_untracked (exchanges.untracked_field known member)
  rw [required] at mode
  rw [sentField, Tree.isNull_carried]
  exact (unfolds f member).isNull.trans (present f member mode)

omit delivers

/-- A payload is read by a reader that has a level wherever the writer has one. -/
theorem ensures_payload (readable : w.Readable) {v : Value} (isRecord : g.asRecord? v = some r)
    (named : r.typeName = w.qualifiedName) {levels levels' : Nat} (enough : levels ≤ levels')
    (ws : WriteState) :
    Ensures (Write.payload W g levels (.struct w false) .dynamic v) ws fun bytes ws' =>
      Builds (W.InTune R g) ws ws'
        (Read.payload R levels' (.peer (R.registry.peer w)) .dynamic none) bytes fun g' v =>
          SentInFull w.fields (W.sentField trees) ∧ v.Revised g' s w.fields (W.sentField trees) := by
  cases levels with
  | zero =>
    simp only [Write.payload, Write.layer, isRecord, named, ne_eq, not_true_eq_false, if_false]
    exact Write.ensures_descend fun _ known => by cases known
  | succ levels =>
    simp only [Write.payload, Write.layer, isRecord, named, ne_eq, not_true_eq_false, if_false]
    refine Write.ensures_descend fun payload deeper => ?_
    cases deeper
    cases levels' with
    | zero => exact absurd enough (Nat.not_succ_le_zero levels)
    | succ levels' =>
      have delivers := exchanges.payload (Nat.le_of_succ_le_succ enough)
      exact exchanges.ensures_record known revises unfolds shared delivers readable ws

omit known in
/-- A record at the root is read as the reader's version of it. -/
theorem ensures_value {v : Value} (isRecord : g.asRecord? v = some r)
    (found : W.registry.struct? r.typeName = some w) {mode : RefMode} (noRef : mode ≠ .tracking)
    (depth : W.config.maxDepth ≤ R.config.maxDepth) (ws : WriteState) :
    Ensures (Write.value W g mode true .dynamic v) ws fun bytes ws' =>
      Builds (W.InTune R g) ws ws' (Read.value R mode true .dynamic) bytes fun g' v =>
        SentInFull w.fields (W.sentField trees) ∧ v.Revised g' s w.fields (W.sentField trees) := by
  have named : r.typeName = w.qualifiedName :=
    (exchanges.writer.built.built found).qualifiedName.symm
  have written := Environment.structFor?_of_struct? found
  have sends := Environment.sends_of_asRecord? isRecord written
  refine Read.ensures_marked noRef (fun null => by subst null; cases isRecord) fun _ =>
    Read.ensures_told fun st tune => ?_
  obtain ⟨notes, noted, told⟩ := tune
  refine (Write.ensures_typeInfo_introduces noted exchanges.writer).mono ?_
  rintro i ws₁ ⟨told', introduces, noted'⟩
  generalize same : i = info at introduces
  cases introduces with
  | @record _ r' w' isRecord' written' _ unique =>
    cases isRecord.symm.trans isRecord'
    cases written.symm.trans written'
    cases same
    refine ⟨_, exchanges.runs_structInfo sends (fun none => ?_) noted' unique told,
      exchanges.ensures_payload ⟨_, found⟩ revises unfolds shared (exchanges.readable w sends) isRecord
        named depth ws₁⟩
    obtain ⟨header, _, defined⟩ := exchanges.distinguished.defined w sends
    rw [defined.peer_eq, Registry.own_peerOf (revises.told header)] at none
    cases none
  | «enum» => cases isRecord
  | unknownEnum => cases isRecord
  | builtin inferred => cases isRecord.symm.trans (Graph.asRecord?_of_inferType? inferred)

end Environment.Exchanges

/-! ## Instances -/

/-- What a record of ours holds for its own fields is what was sent, where nothing is null that may
not be. -/
theorem Record.Revised.unfolds {g : Graph} {s : StructType} {sent : Field → Tree} {r : Record}
    (revised : r.Revised g s s.fields sent) (full : SentInFull s.fields sent) {f : Field}
    (member : f ∈ s.fields) : g.Unfolds (r.value f.name) (sent f) := by
  have gets := revised.kept f member f member (Field.corresponds_of_entry rfl)
  have required := full f member
  unfold Record.value
  generalize sent f = t, r.get? f.name = got at gets required
  cases gets with
  | value _ unfolds => exact unfolds
  | null absent =>
    cases t with
    | leaf v => cases v <;> first | exact .leaf rfl | cases absent
    | _ => cases absent
  | refused absent notNull =>
    rw [required notNull] at absent
    cases absent

namespace Instance

/-- Whether two instances in compatible mode, without references and ceilings, know one record type,
each in its own version, and share all other types. -/
structure Versions (W R : Instance) (w s : StructType) : Prop where
  writer : W.Reachable
  reader : R.Reachable
  sane : R.fault = none
  compatible : W.config.compatible = true ∧ R.config.compatible = true
  untracked : W.config.trackRef = false ∧ R.config.trackRef = false
  unlimited : W.config.limits = .unlimited ∧ R.config.limits = .unlimited
  depth : W.config.maxDepth ≤ R.config.maxDepth
  old : W.registry.struct? w.qualifiedName = some w
  new : R.registry.struct? s.qualifiedName = some s
  same : (∃ id, w.id = some id ∧ s.id = some id) ∨ w.id = none ∧ s.id = none ∧
    s.qualifiedName = w.qualifiedName ∧ w.qualifiedName.toList.head? ≠ some '.'
  shared : W.registry.SharesExcept R.registry w.qualifiedName
  plain : w.Plain ∧ s.Plain

/-- Whether the definitions that an instance sends with a graph can be read, and told apart by their
headers: from each other, from what the instance keeps of earlier frames, and from that of a struct of
the reader. -/
structure TellsApart (W : Instance) (g : Graph) (s : StructType) : Prop where
  readable : ∀ t, W.environment.Sends g t → t.Readable
  apart : HeadersApart fun t => W.environment.Sends g t ∨ t = s
  kept : ∀ t header p, W.environment.Sends g t → t.header? = some header →
    W.cache.get? header = some p → p = W.registry.peerOf t header
  types : g.typeNames.eraseDups.length ≤ 2 ^ 31
  brief : s.Brief

/-- How an instance goes through records does not matter for what is shared. -/
theorem shared_setStrategy {W R : Instance} {name : String} {t : Tree}
    (shared : t.Shared W.environment R.environment name) :
    t.Shared (W.setStrategy .interpreted).environment (R.setStrategy .interpreted).environment name := by
  induction shared with
  | leaf short known =>
    refine .leaf short fun n ordinal same none => ?_
    obtain ⟨mine, theirs⟩ := known n ordinal same none
    exact ⟨⟨⟨mine.lenient, mine.noStruct⟩, mine.member⟩, ⟨⟨theirs.lenient, theirs.noStruct⟩, theirs.member⟩⟩
  | list count _ ih => exact .list count ih
  | set count _ ih => exact .set count ih
  | map count _ _ keys values => exact .map count keys values
  | record other known _ ih =>
    refine .record other (fun none => ?_) ih
    obtain ⟨mine, theirs⟩ := known none
    exact ⟨⟨mine.lenient, mine.noStruct⟩, ⟨theirs.lenient, theirs.noStruct⟩⟩

namespace Versions

variable {W R : Instance} {w s : StructType} (versions : W.Versions R w s) (sane : W.fault = none)
  {g : Graph} (tells : W.TellsApart g s)

include versions sane

section

include tells

theorem exchanges : (W.setStrategy .interpreted).environment.Exchanges
    (R.setStrategy .interpreted).environment g w.qualifiedName where
  writer := versions.writer.describing sane versions.compatible.1
  reader := versions.reader.describing versions.sane versions.compatible.2
  untracked := versions.untracked.1
  unlimited := versions.unlimited.2
  shared := versions.shared
  readable := tells.readable
  apart t t' sends sends' := tells.apart t t' (.inl sends) (.inl sends')
  types := tells.types

/-- A writer shares all types with itself. -/
theorem exchanges_own : (W.setStrategy .interpreted).environment.Exchanges
    (W.setStrategy .interpreted).environment g w.qualifiedName :=
  { versions.exchanges sane tells with
    reader := versions.writer.describing sane versions.compatible.1
    unlimited := versions.unlimited.1
    shared :=
      { structs := fun n t other found => ⟨found, (versions.shared.structs n t other found).2⟩
        enums := fun n e found => ⟨found, (versions.shared.enums n e found).2⟩ } }

/-- The instance itself keeps what it makes of the definitions. -/
theorem inTune_own (bytes : List UInt8) : (W.setStrategy .interpreted).environment.InTune
    (W.setStrategy .interpreted).environment g .initial (.ofBytes bytes W.cache) := by
  have exchanges := versions.exchanges sane tells
  refine ⟨_, .initial _ g, fun _ member => absurd member List.not_mem_nil, rfl, ?_⟩
  intro t header p sends front found
  have described := (exchanges.writer.sendable_of_sends sends).described
  exact ⟨tells.kept t header p sends front found, described.legible (tells.readable t sends)⟩

end

/-- A struct of the instance itself is told as that struct. -/
theorem revises_own (brief : w.Brief) : (W.setStrategy .interpreted).environment.Revises w w where
  known := ⟨_, versions.old⟩
  told header := by
    have env := versions.writer.describing sane versions.compatible.1
    have built := env.built.built versions.old
    rcases versions.same with ⟨id, ident, -⟩ | ⟨unnumbered, -, -, noDot⟩
    · exact Registry.structOf?_told env.sound env.built versions.old ident ident header
    · exact (Registry.structOf?_told_names unnumbered built.parts (fun h => noDot h.head?) header).trans versions.old
  brief
  plain := ⟨versions.plain.1, versions.plain.1⟩
  apart _ := rfl

theorem revises (brief : s.Brief) (apart : w.header? = s.header? → w.definition = s.definition) :
    (R.setStrategy .interpreted).environment.Revises w s where
  known := ⟨_, versions.new⟩
  told header := by
    have env := versions.reader.describing versions.sane versions.compatible.2
    have built := (versions.writer.describing sane versions.compatible.1).built.built versions.old
    rcases versions.same with ⟨id, ident, ident'⟩ | ⟨unnumbered, -, name, noDot⟩
    · exact Registry.structOf?_told env.sound env.built versions.new ident' ident header
    · exact (Registry.structOf?_told_names unnumbered built.parts (fun h => noDot h.head?) header).trans (name ▸ versions.new)
  brief
  plain := versions.plain
  apart

end Versions

/-- A writer's record that holds no further record of its type is read by a reader with another
version of the type: a field gets the value that the writer itself reads for its counterpart, or its
default where that is null and may not be, or where there is no counterpart. -/
theorem deserialize_evolved {W R : Instance} {w s : StructType} (versions : W.Versions R w s)
    (unused : R.cache = .empty) {g : Graph} (tells : W.TellsApart g s) {v : Value}
    {trees : List (String × Tree)} (unfolds : g.Unfolds v (.record w.qualifiedName trees))
    (shared : ∀ e ∈ trees, ∀ f, W.registry.field? w.qualifiedName e.1 = some f →
      e.2.Shared W.environment R.environment w.qualifiedName)
    {bytes : List UInt8} (written : W.serialize g v = .ok bytes) :
    ∃ a gW rW b gR rR sent, (W.deserialize bytes).1 = .ok (a, gW) ∧ gW.asRecord? a = some rW ∧
      (R.deserialize bytes).1 = .ok (b, gR) ∧ gR.asRecord? b = some rR ∧
        (∀ f ∈ w.fields, gW.Unfolds (rW.value f.name) (sent f)) ∧ rR.Revised gR s w.fields sent := by
  have sane := sane_of_serialize written
  let W' := W.setStrategy .interpreted
  let R' := R.setStrategy .interpreted
  have exchanges := versions.exchanges sane tells
  have exchangesOwn := versions.exchanges_own sane tells
  obtain ⟨r, isRecord, named, names, values⟩ := unfolds.of_record
  have found : W.registry.struct? r.typeName = some w := named ▸ versions.old
  have sends : W'.environment.Sends g w :=
    Environment.sends_of_asRecord? isRecord (Environment.structFor?_of_struct? found)
  have trees_unfold : ∀ f ∈ w.fields, g.Unfolds (r.value f.name) (Tree.fieldOf trees f.name) :=
    fun f _ => Graph.unfolds_fieldOf names values f.name
  have trees_shared : ∀ f ∈ w.fields,
      (Tree.fieldOf trees f.name).Shared W'.environment R'.environment w.qualifiedName := by
    intro f member
    rw [Tree.fieldOf]
    cases set : trees.lookup f.name with
    | none => exact .null
    | some t =>
      have names := (exchanges.writer.built.built versions.old).names
      exact shared_setStrategy (shared (f.name, t) (mem_of_lookup set) f
        (Registry.field?_eq_some versions.old names member))
  obtain ⟨-, ⟨rfl, -⟩ | ⟨-, body, ws, rfl, run⟩⟩ :=
    ok_of_serialize (versions.writer.serialize_interpreted written)
  · cases isRecord
  have mode : W'.rootMode = R'.rootMode := by
    show RefMode.ofFlags true W.config.trackRef = RefMode.ofFlags true R.config.trackRef
    rw [versions.untracked.1, versions.untracked.2]
  have noRef : W'.rootMode ≠ .tracking := by
    show RefMode.ofFlags true W.config.trackRef ≠ .tracking
    rw [versions.untracked.1]
    decide
  have mine := exchangesOwn.ensures_value
    (versions.revises_own sane (tells.readable w sends).toBrief) trees_unfold
    (fun f member => (trees_shared f member).own) isRecord found noRef (Nat.le_refl _) .initial body ws run
  have theirs := exchanges.ensures_value
    (versions.revises sane tells.brief (tells.apart w s (.inl sends) (.inr rfl))) trees_unfold
    trees_shared isRecord found noRef versions.depth .initial body ws run
  rw [mode] at theirs
  obtain ⟨a, stW, readW, -, -, builtW⟩ := deserialize_of_runs (i := W') sane
    (mine _ (versions.inTune_own sane tells _))
  have tune : W'.environment.InTune R'.environment g .initial
      (.ofBytes (Encode.head false ++ body) R'.cache) := by
    rw [show R'.cache = .empty from unused]
    exact .initial _ _ g _
  obtain ⟨b, stR, readR, -, -, builtR⟩ := deserialize_of_runs (i := R') versions.sane (theirs _ tune)
  obtain ⟨full, rW, isRecordW, revisedW⟩ := builtW stW.graph fun _ _ _ => rfl
  obtain ⟨-, rR, isRecordR, revisedR⟩ := builtR stR.graph fun _ _ _ => rfl
  exact ⟨a, stW.graph, rW, b, stR.graph, rR, _, versions.writer.deserialize_eq_ok readW, isRecordW,
    versions.reader.deserialize_eq_ok readR, isRecordR, fun f member => revisedW.unfolds full member,
    revisedR⟩

/-- An instance in compatible mode that need not know types. It knows an enumeration, and a struct whose
one field is known by its tag. -/
def grading (name : String) (nullable : Bool) : Instance :=
  [.setLimits .unlimited, .setCompatible true, .setRequireRegistration false,
    .registerEnum (some 2) ⟨.ofNames "demo" "Grade", ["LOW", "HIGH"]⟩,
    .registerStruct (some 1) ⟨.ofNames "demo" "T", none, false,
      [{ FieldDecl.ofShape name .dynamic with
          tag := some 3, nullable, constant := some (.string "") }]⟩].foldl perform fresh

/-- A record with a list of a member of the enumeration, of a member of another one that nobody knows,
and of a record that nobody knows. -/
def graded : Graph :=
  ⟨#[.record ((Record.ofType "demo.T").set "grade" (.handle ⟨1⟩)),
    .list [.enum "demo.Grade" 1, .enum "demo.Mark" 7, .handle ⟨2⟩],
    .record ((Record.ofType "demo.Note").set "text" (.string "s"))]⟩

def gradedTrees : List (String × Tree) :=
  [("grade", .list [.leaf (.enum "demo.Grade" 1), .leaf (.enum "demo.Mark" 7),
    .record "demo.Note" [("text", .leaf (.string "s"))]])]

theorem unfolds_graded : graded.Unfolds (.handle ⟨0⟩) (.record "demo.T" gradedTrees) := by
  have note : graded.Unfolds (.handle ⟨2⟩) (.record "demo.Note" [("text", .leaf (.string "s"))]) :=
    .record (r := (Record.ofType "demo.Note").set "text" (.string "s")) rfl rfl (.cons (.leaf rfl) .nil)
  have list : graded.Unfolds (.handle ⟨1⟩) (.list [.leaf (.enum "demo.Grade" 1),
      .leaf (.enum "demo.Mark" 7), .record "demo.Note" [("text", .leaf (.string "s"))]]) :=
    .list rfl (.cons (.leaf rfl) (.cons (.leaf rfl) (.cons note .nil)))
  exact .record (r := (Record.ofType "demo.T").set "grade" (.handle ⟨1⟩)) rfl rfl (.cons list .nil)

/-- The field is renamed, and may not be null any more. -/
theorem versions_grading : ∃ w s, w.qualifiedName = "demo.T" ∧
    (grading "grade" true).Versions (grading "mark" false) w s ∧
      (grading "grade" true).TellsApart graded s := by
  have known : ((grading "grade" true).registry.struct? "demo.T").any (fun w =>
      w.qualifiedName = "demo.T" ∧ w.id = some 1 ∧ w.Plain) = true := by decide +kernel
  have known' : ((grading "mark" false).registry.struct? "demo.T").any (fun s =>
      s.qualifiedName = "demo.T" ∧ s.id = some 1 ∧ s.Short ∧ s.Plain ∧
        ∀ t ∈ (grading "grade" true).environment.sent graded, t.header? ≠ s.header?) = true := by
    decide +kernel
  have names : (grading "grade" true).registry.structs.map (·.1) = ["demo.T"] := by decide +kernel
  have enums : (grading "grade" true).registry.enums = (grading "mark" false).registry.enums ∧
      ∀ e ∈ (grading "grade" true).registry.enums, ∃ id ∈ e.2.id, id < 2 ^ 32 := by decide +kernel
  have sent : ∀ t ∈ (grading "grade" true).environment.sent graded,
      (t.Short ∧ ∀ f ∈ t.fields, f.toldShape.nesting ≤ FieldType.maxDepth) ∧
        ∀ t' ∈ (grading "grade" true).environment.sent graded, t.header? = t'.header? →
          t.definition = t'.definition := by decide +kernel
  have unused : (grading "grade" true).cache = .empty := eq_empty_of_isEmpty (by decide +kernel)
  obtain ⟨w, old, checks⟩ := (Option.any_eq_true _ _).1 known
  obtain ⟨s, new, checks'⟩ := (Option.any_eq_true _ _).1 known'
  obtain ⟨named, ident, plain⟩ := of_decide_eq_true checks
  obtain ⟨named', ident', short', plain', differ⟩ := of_decide_eq_true checks'
  refine ⟨w, s, named, ?_, ?_⟩
  · exact
      { writer := ⟨_, rfl⟩
        reader := ⟨_, rfl⟩
        sane := by decide +kernel
        compatible := by decide +kernel
        untracked := by decide +kernel
        unlimited := by decide +kernel
        depth := by decide +kernel
        old := named ▸ old
        new := named' ▸ new
        same := .inl ⟨1, ident, ident'⟩
        shared :=
          { structs := fun n t other found =>
              absurd ((eq_of_names names old found).1.trans named.symm) other
            enums := fun n e found => by
              refine ⟨?_, enums.2 _ (mem_of_lookup found)⟩
              rw [Registry.enum?, ← enums.1]
              exact found }
        plain := ⟨plain, plain'⟩ }
  · exact
      { readable := fun t sends =>
          { (sent t sends.mem_sent).1.1.brief with nesting := (sent t sends.mem_sent).1.2 }
        apart := by
          rintro t t' (sends | rfl) (sends' | rfl) same
          · exact (sent t sends.mem_sent).2 t' sends'.mem_sent same
          · exact absurd same (differ t sends.mem_sent)
          · exact absurd same.symm (differ t' sends'.mem_sent)
          · rfl
        kept := fun t header p _ _ found => by
          rw [unused] at found
          cases found
        types := by decide +kernel
        brief := short'.brief }

theorem shared_graded : ∀ e ∈ gradedTrees, e.2.Shared (grading "grade" true).environment
    (grading "mark" false).environment "demo.T" := by
  have known : ((grading "grade" true).environment.registry.enum? "demo.Grade").isSome = true := by
    decide +kernel
  have nobody : ∀ i ∈ [grading "grade" true, grading "mark" false],
      ∀ name ∈ ["demo.Mark", "demo.Note"], i.config.requireRegistration = false ∧
        i.registry.struct? (rejoined name) = none ∧ i.registry.enum? (rejoined name) = none := by
    decide +kernel
  have admits (i : Instance) (here : i ∈ [grading "grade" true, grading "mark" false]) (name : String)
      (unknown : name ∈ ["demo.Mark", "demo.Note"]) :
      (grading "grade" true).environment.AdmitsMember i.environment name 7 := by
    obtain ⟨lenient, noStruct, noEnum⟩ := nobody i here name unknown
    exact ⟨⟨fun _ => lenient, noStruct⟩, fun e found => by cases noEnum.symm.trans found⟩
  have texts : (Utf8.encode "demo.Grade").length < 2 ^ 62 ∧ (Utf8.encode "demo.Mark").length < 2 ^ 62 ∧
      (Utf8.encode "s").length < 2 ^ 62 := by decide +kernel
  refine List.forall_mem_singleton.2 (.list (by decide) ?_)
  refine List.forall_mem_cons.2 ⟨.leaf ⟨texts.1, by decide⟩ ?_,
    List.forall_mem_cons.2 ⟨.leaf ⟨texts.2.1, by decide⟩ ?_,
      List.forall_mem_singleton.2 (.record (fun _ => by decide) (fun _ => ?_) ?_)⟩⟩
  · rintro _ _ ⟨⟩ absent
    rw [absent] at known
    cases known
  · rintro _ _ ⟨⟩ -
    exact ⟨admits _ (by simp) _ (by simp), admits _ (by simp) _ (by simp)⟩
  · exact ⟨(admits _ (by simp) "demo.Note" (by simp)).toAdmits,
      (admits _ (by simp) "demo.Note" (by simp)).toAdmits⟩
  · exact List.forall_mem_singleton.2 fun _ => .leaf texts.2.2 nofun

/-- The reader keeps the list, with the members and the record that nobody knows, under its own name. -/
theorem deserialize_evolved_grade : ∃ w s bytes, (grading "grade" true).Versions (grading "mark" false) w s ∧
    (grading "grade" true).TellsApart graded s ∧
      graded.Unfolds (.handle ⟨0⟩) (.record w.qualifiedName gradedTrees) ∧
        (grading "grade" true).serialize graded (.handle ⟨0⟩) = .ok bytes ∧
          ∃ a gW rW b gR rR sent,
            ((grading "grade" true).deserialize bytes).1 = .ok (a, gW) ∧ gW.asRecord? a = some rW ∧
              ((grading "mark" false).deserialize bytes).1 = .ok (b, gR) ∧ gR.asRecord? b = some rR ∧
                (∀ f ∈ w.fields, gW.Unfolds (rW.value f.name) (sent f)) ∧
                  rR.Revised gR s w.fields sent := by
  obtain ⟨w, s, named, versions, tells⟩ := versions_grading
  have unused : (grading "mark" false).cache = .empty := eq_empty_of_isEmpty (by decide +kernel)
  have written : ((grading "grade" true).serialize graded (.handle ⟨0⟩)).isOk = true := by decide +kernel
  have unfolds : graded.Unfolds (.handle ⟨0⟩) (.record w.qualifiedName gradedTrees) :=
    named ▸ unfolds_graded
  cases run : (grading "grade" true).serialize graded (.handle ⟨0⟩) with
  | error e =>
    rw [run] at written
    cases written
  | ok bytes =>
    exact ⟨w, s, bytes, versions, tells, unfolds, rfl, deserialize_evolved versions unused tells unfolds
      (fun e member _ _ => named ▸ shared_graded e member) run⟩

/-- An instance in compatible mode that knows a struct with one field for anything, which may be known
by a tag, and other structs. -/
def holding (lenient : Bool) (name : String) (tag : Option Int) (others : List StructDecl) : Instance :=
  let field : FieldDecl := { FieldDecl.ofShape name .dynamic with tag, nullable := true }
  (.setLimits .unlimited :: .setCompatible true :: .setRequireRegistration (!lenient) ::
    .registerStruct (some 1) ⟨.ofNames "demo" "T", none, false, [field]⟩ ::
      others.map (Action.registerStruct (some 2))).foldl perform fresh

/-- A struct that takes its field from the one that both instances know in versions of their own. -/
def heir : StructDecl := ⟨.ofNames "demo" "U", some "demo.T", false, []⟩

/-- Lists in lists. -/
def nested : Nat → Shape
  | 0 => .scalar .string
  | n + 1 => .list (nested n)

/-- A struct with a field whose lists nest too deep for its definition. -/
def deep : StructDecl :=
  ⟨.ofNames "demo" "U", none, false, [{ FieldDecl.ofShape "a" (nested 65) with nullable := true }]⟩

/-- A record that holds a value, with further nodes. -/
def holder (name : String) (v : Value) (more : List Node) : Graph :=
  ⟨(.record ((Record.ofType "demo.T").set name v) :: more).toArray⟩

/-- A record of the other struct. -/
def held (name : String) : Node := .record ((Record.ofType "demo.U").set name (.string "s"))

/-- What a reader makes of a record that a writer wrote. -/
def carried (W R : Instance) (g : Graph) : Option (Except Error (Value × Graph)) :=
  (W.serialize g (.handle ⟨0⟩)).toOption.map fun bytes => (R.deserialize bytes).1

/-- A type within the record that is not registered is admitted by a lenient writer, but not by every
reader, and not even by a lenient one if a struct has its name. A struct that inherits from the record
type differs where that differs. A definition whose lists nest too deep is written but not read. -/
theorem deserialize_evolved_fails :
    carried (holding true "x" none []) (holding false "x" none []) (holder "x" (.enum "demo.E" 0) []) =
        some (.error (.typeUnregistered "demo.E")) ∧
      carried (holding true "x" none [heir]) (holding true "x" none [heir])
          (holder "x" (.enum "demo.U" 0) []) = some (.error (.strictInfoForCompatible "demo.U")) ∧
      (carried (holding false "x" (some 1) [heir]) (holding false "x" (some 1) [heir])
          (holder "x" (.handle ⟨1⟩) [held "x"]) =
            some (.ok (.handle ⟨0⟩, holder "x" (.handle ⟨1⟩) [held "x"])) ∧
        carried (holding false "x" (some 1) [heir]) (holding false "y" (some 1) [heir])
          (holder "x" (.handle ⟨1⟩) [held "x"]) =
            some (.ok (.handle ⟨0⟩, holder "y" (.handle ⟨1⟩) [held "y"]))) ∧
      carried (holding false "x" none [deep]) (holding false "x" none [deep])
          (holder "x" (.handle ⟨1⟩) [.record (.ofType "demo.U")]) =
        some (.error .fieldTypeTooDeep) := by
  refine ⟨?_, ?_, ⟨?_, ?_⟩, ?_⟩ <;> decide +kernel

end Instance

end Graphwire
