import Graphwire.Proofs.FilledFields

/-!
# Records of any definition

A record is read by our own fields where its definition is our own, and else by the fields of the
definition: a field of ours is matched with an entry or counts as missing, and gets a default in both
cases if nothing else came. So no record of a type without default factories lacks a value in a field
that may not be null, but for one reason: a null that is read as a reference by our own fields is left
alone.
-/

namespace Graphwire

set_option autoImplicit false

/-! ## Entries -/

mutual

/-- No shape refers to a type by name unless a field of ours describes it. -/
theorem FieldType.names_toShape : ∀ t : FieldType, t.toShape.names = []
  | .mk t _ _ generics => by
    rw [toShape]
    split
    · exact names_partShape generics
    · split
      · exact names_partShape generics
      · split
        · rw [Shape.names, names_partShape generics, names_secondShape generics, List.append_nil]
        · split <;> rfl

theorem FieldType.names_partShape : ∀ generics : List FieldType, (partShape generics).names = []
  | [] => rfl
  | a :: _ => names_toShape a

theorem FieldType.names_secondShape : ∀ generics : List FieldType, (secondShape generics).names = []
  | [] | [_] => rfl
  | _ :: b :: _ => names_toShape b

end

theorem FieldType.type_of_agrees {a b : FieldType} (agree : a.agrees b = true) : a.type = b.type := by
  obtain ⟨t, _, _, g⟩ := a
  obtain ⟨u, _, _, h⟩ := b
  rw [agrees, Bool.and_eq_true] at agree
  exact of_decide_eq_true agree.1

/-- An entry is matched with a field of its type. -/
theorem agrees_of_matchEntries {fields : List Field} {entries : List FieldEntry} {taken : List Nat}
    {e : FieldEntry} {i : Nat} (matched : (e, some i) ∈ entries.zip (matchEntries fields entries taken)) :
    ∃ g, fields[i]? = some g ∧ g.fieldType.agrees e.type = true := by
  induction entries generalizing taken with
  | nil => exact absurd matched List.not_mem_nil
  | cons e' rest ih =>
    rcases List.mem_cons.1 matched with here | later
    · obtain ⟨rfl, found⟩ := Prod.mk.inj here
      have found : e.match? fields taken = some i := found.symm
      unfold FieldEntry.match? at found
      split at found
      · rename_i g j hit
        split at found
        · rename_i agrees
          cases found
          exact ⟨g, List.mem_zipIdx_iff_getElem?.1 (List.mem_of_find?_eq_some hit), agrees⟩
        · cases found
      · cases found
    · exact ih later

namespace PeerStruct

variable {r : Registry} {header : Int} {d : TypeDefinition}

/-- The fields of a definition are made of its entries, each with what it was matched with. -/
theorem exists_of_mem_fields {e : PeerField} (member : e ∈ (ofDefinition r header d).fields) :
    ∃ entry position, e = .ofEntry (r.structOf? d.identity) entry position ∧
      ∀ own i, r.structOf? d.identity = some own → position = some i →
        ∃ g, own.fields[i]? = some g ∧ g.fieldType.agrees entry.type = true := by
  unfold ofDefinition at member
  dsimp only at member
  rw [← List.map_uncurry_zip_eq_zipWith] at member
  obtain ⟨⟨entry, position⟩, paired, rfl⟩ := List.mem_map.1 member
  refine ⟨entry, position, rfl, ?_⟩
  rintro own i found rfl
  rw [found] at paired
  exact agrees_of_matchEntries paired

/-- A field of a definition is read with the shape of a field of ours, whose value carries its type if the
field has none to tell, or with a shape that refers to no type. -/
theorem shape_of_mem_fields {e : PeerField} (member : e ∈ (ofDefinition r header d).fields) :
    e.shape.names = [] ∨ ∃ own g, r.structOf? d.identity = some own ∧ g ∈ own.fields ∧ e.shape = g.shape ∧
      (g.fieldType.type = .unknown ∨ g.fieldType.type.isUser = true → e.typed = true) := by
  obtain ⟨entry, position, rfl, matched⟩ := exists_of_mem_fields member
  cases found : r.structOf? d.identity with
  | none => exact .inl (FieldType.names_toShape _)
  | some own =>
    cases position with
    | none => exact .inl (FieldType.names_toShape _)
    | some i =>
      obtain ⟨g, at', agrees⟩ := matched own i found rfl
      have field : ((some own).bind fun s => (some i).bind fun i => s.fields[i]?) = some g := at'
      refine .inr ⟨own, g, rfl, List.mem_of_getElem? at', ?_, fun open' => ?_⟩
      · simp only [PeerField.ofEntry, field, Option.elim_some]
      · rw [FieldType.type_of_agrees agrees] at open'
        simpa [PeerField.ofEntry] using open'

/-- Every field of ours is matched with an entry, or is missing. -/
theorem mem_fields_or_missing {own : StructType} (found : r.structOf? d.identity = some own) {i : Nat}
    (inside : i < own.fields.length) :
    (∃ e ∈ (ofDefinition r header d).fields, e.own = some i) ∨
      i ∈ (ofDefinition r header d).missing := by
  have fields : (ofDefinition r header d).fields =
      d.fields.zipWith (.ofEntry (some own)) (matchEntries own.fields d.fields []) := by
    simp only [ofDefinition, found, TypeDefinition.reconcile]
  have missing : (ofDefinition r header d).missing =
      (List.range own.fields.length).filter fun i =>
        !(matchEntries own.fields d.fields []).contains (some i) := by
    simp only [ofDefinition, found, TypeDefinition.reconcile]
  rw [fields, missing]
  by_cases matched : some i ∈ matchEntries own.fields d.fields []
  · obtain ⟨n, lt, at'⟩ := List.mem_iff_getElem.1 matched
    rw [length_matchEntries] at lt
    refine .inl ⟨.ofEntry (some own) d.fields[n] (some i), ?_, rfl⟩
    refine List.mem_iff_getElem.2 ⟨n, by simpa [length_matchEntries] using lt, ?_⟩
    rw [List.getElem_zipWith, at']
  · exact .inr (List.mem_filter.2 ⟨List.mem_range.2 inside, by simpa using matched⟩)

/-- A record of a struct of ours gets its name. -/
theorem typeName_ofDefinition {own : StructType} (found : (ofDefinition r header d).own = some own) :
    r.HasStruct own ∧ (ofDefinition r header d).typeName = own.qualifiedName := by
  have found : r.structOf? d.identity = some own := found
  refine ⟨Registry.hasStruct_of_structOf? found, ?_⟩
  simp only [ofDefinition, found, Option.elim_some]

end PeerStruct

namespace Read

variable {env : Environment} {own : StructType} {f : Field}

/-! ## Records -/

section

variable (provides : env.Provides own f) {inner : ReadPayload}
  (payload : CompletesPayload env own f inner)

include provides payload

/-- A field of ours is null only if it is a reference. -/
theorem lands_field {s : StructType} (known : env.registry.HasStruct s) {g : Field}
    (member : g ∈ s.fields) (k : Handle) :
    Lands env own f (f.tracked = true) k s.qualifiedName (g = f) (field env inner s k g) := by
  have apart (separate : env.Separates own) : own.Apart (g.hasTypeInfo s.isCompatible) g.shape := by
    refine fun untold => separate s known g member ?_
    rcases untold with untyped | plain
    · rw [Field.hasTypeInfo, provides.compatible s known, Bool.true_and, Bool.or_eq_false_iff] at untyped
      exact untyped.2
    · exact plain
  unfold field
  refine .after (Q := fun v => g = f → f.tracked = false → v.isNull = false)
    (completes_marked provides payload _ apart) (fun st => ?_) fun v present => ?_
  · by_cases landed : g = f ∧ f.tracked = false
    · have mode : g.refMode = .none := by
        rw [landed.1, Field.refMode_of_untracked landed.2, provides.required]
        rfl
      rw [mode]
      exact (present_marked payload.present _ _ st).mono fun _ _ present _ _ => present
    · exact fun _ _ _ same untracked => absurd ⟨same, untracked⟩ landed
  · by_cases null : v.isNull = true
    · rw [if_pos null]
      refine (Lands.noteNull g.name).mono fun same => ⟨congrArg Field.name same, ?_⟩
      by_contra untracked
      cases null.symm.trans (present same (Bool.not_eq_true _ ▸ untracked))
    · rw [if_neg null]
      have null := Bool.not_eq_true _ ▸ null
      exact (Lands.setField (.inl null)).mono fun same => ⟨congrArg Field.name same, null⟩

/-- A record that is read by our own fields lacks a value at most where a null was read for a reference. -/
theorem ensures_record {s : StructType} (known : env.registry.HasStruct s) (strict : Bool)
    (slot : Option Nat) {st : ReadState} (versed : st.Versed env.registry)
    (ownFields : s.qualifiedName = own.qualifiedName → ¬st.Reconciles env own) :
    Ensures (record env inner s strict slot) st fun _ t => st.Completes env own f t := by
  have body {st' : ReadState} (step : st.Completes env own f st') : Ensures
      (do
        let h ← newRecord s.qualifiedName slot
        fields env inner s h
        return Value.handle h) st' fun _ t => st.Completes env own f t := by
    have fill (k : Handle) : Lands env own f (f.tracked = true) k s.qualifiedName (f ∈ s.fields)
        (do fields env inner s k; return Value.handle k) := by
      unfold fields
      rw [provides.interpreted]
      have each := Lands.each s.fields fun g member => lands_field provides payload known member k
      exact (each.then_ (.off (.pure (Value.handle k)) id)).mono fun hit => .inl ⟨f, hit, rfl⟩
    refine (ensures_newRecord (step.versed versed) slot fill fun same => ⟨?_, fun tracked =>
      ⟨tracked, fun reconciles => ownFields same (reconciles.before step.met)⟩⟩).mono
        fun _ _ next => step.trans next
    cases provides.only known same
    exact provides.member
  unfold record
  cases strict with
  | true =>
    exact (Completes.decode _ st versed).bind fun version t first =>
      (Completes.check _ t (first.versed versed)).bind fun _ u second => body (first.trans second)
  | false => exact body (.refl st)

/-! ## Records of peers -/

omit payload in
theorem lands_keepField {p : PeerStruct}
    (known : ∀ s, p.own = some s → env.registry.HasStruct s ∧ p.typeName = s.qualifiedName)
    (k : Handle) (e : PeerField) (v : Value) :
    Lands env own f False k p.typeName
      (p.own = some own ∧ ∃ i, e.own = some i ∧ own.fields[i]? = some f) (keepField p k e v) := by
  unfold keepField
  split
  · rename_i s g isOwn counterpart
    obtain ⟨i, position, found⟩ := Option.bind_eq_some_iff.1 counterpart
    obtain ⟨s', isOwn', at'⟩ := Option.bind_eq_some_iff.1 found
    cases isOwn.symm.trans isOwn'
    have member : g ∈ s.fields := List.mem_of_getElem? at'
    have same (hit : p.own = some own ∧ ∃ i, e.own = some i ∧ own.fields[i]? = some f) : g = f := by
      obtain ⟨isOwn'', j, position', there⟩ := hit
      cases isOwn.symm.trans isOwn''
      cases position.symm.trans position'
      exact Option.some.inj (at'.symm.trans there)
    split
    · have noted : Lands env own f False k p.typeName False (noteNull k g.name) :=
        .off (.noteNull k g.name) id
      refine (noted.then_ ?_).mono fun hit => .inr (same hit)
      split
      · rename_i nullable
        refine .off (.pure ()) ?_
        rintro rfl
        rw [provides.required] at nullable
        cases nullable
      · obtain ⟨registered, typeName⟩ := known s isOwn
        exact .fillMissing provides registered member (provides.fine member registered typeName)
    · have present := Bool.not_eq_true _ ▸ ‹¬v.isNull = true›
      exact (Lands.setField (.inl present)).mono fun hit => ⟨congrArg Field.name (same hit), present⟩
  · rename_i isOwn _
    have missed : ¬(p.own = some own ∧ ∃ i, e.own = some i ∧ own.fields[i]? = some f) := by
      rintro ⟨hit, -⟩
      cases isOwn.symm.trans hit
    split
    · exact .off (.pure ()) missed
    · exact (Lands.setField (.inl (Bool.not_eq_true _ ▸ ‹¬v.isNull = true›))).mono
        fun hit => absurd hit missed
  · rename_i other _
    refine .off (.still local_noteDropped fun _ => .modify ⟨rfl, rfl, List.Subset.refl _⟩) ?_
    rintro ⟨isOwn, i, position, at'⟩
    refine other own f isOwn ?_
    rw [position, isOwn]
    exact at'

theorem lands_peerField {header : Int} {d : TypeDefinition} (k : Handle) {e : PeerField}
    (member : e ∈ (PeerStruct.ofDefinition env.registry header d).fields) :
    Lands env own f False k (PeerStruct.ofDefinition env.registry header d).typeName
      ((PeerStruct.ofDefinition env.registry header d).own = some own ∧
        ∃ i, e.own = some i ∧ own.fields[i]? = some f)
      (peerField env inner (.ofDefinition env.registry header d) k e) := by
  have apart (separate : env.Separates own) : own.Apart e.typed e.shape := by
    intro untold
    rcases PeerStruct.shape_of_mem_fields member with none | ⟨s, g, found, declared, shape, told⟩
    · rw [none]
      exact List.not_mem_nil
    · have known := Registry.hasStruct_of_structOf? found
      rw [shape] at untold ⊢
      refine separate s known g declared ?_
      rcases untold with untyped | plain
      · by_contra named
        rw [told (provides.told s known g declared (Bool.not_eq_false _ ▸ named))] at untyped
        cases untyped
      · exact plain
  exact .after (Q := fun _ => True) (completes_marked provides payload _ apart)
    (fun _ _ _ _ => trivial) fun v _ =>
      lands_keepField provides (fun _ => PeerStruct.typeName_ofDefinition) k e v

omit payload in
/-- Our fields that a definition does not have get their defaults. -/
theorem lands_missing {header : Int} {d : TypeDefinition} {p : PeerStruct}
    (made : p = .ofDefinition env.registry header d) (k : Handle) :
    Lands env own f False k p.typeName (p.own = some own ∧ ∃ i ∈ p.missing, own.fields[i]? = some f)
      (each (fillMissing k) (p.own.elim [] fun s => p.missing.filterMap fun i => s.fields[i]?)) := by
  cases isOwn : p.own with
  | none => exact .off (.pure ()) fun hit => by cases hit.1
  | some s =>
    have registered := PeerStruct.typeName_ofDefinition (made ▸ isOwn)
    rw [← made] at registered
    have fill : ∀ g ∈ p.missing.filterMap fun i => s.fields[i]?,
        Lands env own f False k p.typeName (g = f) (fillMissing k g) := by
      intro g member
      obtain ⟨i, -, at'⟩ := List.mem_filterMap.1 member
      have member : g ∈ s.fields := List.mem_of_getElem? at'
      exact .fillMissing provides registered.1 member (provides.fine member registered.1 registered.2)
    refine (Lands.each _ fill).mono ?_
    rintro ⟨same, i, missing, at'⟩
    cases same
    exact ⟨f, List.mem_filterMap.2 ⟨i, missing, at'⟩, rfl⟩

/-- A record that is read by the fields of a definition has a value in the field, which is matched or
missing. -/
theorem ensures_reconciled {header : Int} {d : TypeDefinition}
    (lenient : env.registry.structOf? d.identity = none → env.config.requireRegistration = false)
    (slot : Option Nat) {s : ReadState} (versed : s.Versed env.registry) :
    Ensures (reconciled env inner (.ofDefinition env.registry header d) slot) s
      fun _ t => s.Completes env own f t := by
  let p := PeerStruct.ofDefinition env.registry header d
  have fill (k : Handle) : Lands env own f False k p.typeName (p.own = some own)
      (do
        each (peerField env inner p k) p.fields
        each (fillMissing k) (p.own.elim [] fun s => p.missing.filterMap fun i => s.fields[i]?)
        return Value.handle k) := by
    have matched := Lands.each p.fields fun e member => lands_peerField provides payload k member
    have missing := (lands_missing provides (p := p) rfl k).then_ (.off (.pure (Value.handle k)) id)
    refine (matched.then_ missing).mono fun isOwn => ?_
    obtain ⟨i, at'⟩ := List.mem_iff_getElem?.1 provides.member
    have inside := (List.getElem?_eq_some_iff.1 at').1
    have complete : (∃ e ∈ p.fields, e.own = some i) ∨ i ∈ p.missing :=
      PeerStruct.mem_fields_or_missing isOwn inside
    rcases complete with ⟨e, member, position⟩ | missing
    · exact .inl ⟨e, member, isOwn, i, position, at'⟩
    · exact .inr (.inl ⟨isOwn, i, missing, at'⟩)
  refine ensures_newRecord versed slot fill fun typeName => ⟨?_, False.elim⟩
  cases isOwn : p.own with
  | none =>
    have unknown : env.registry.structOf? d.identity = none := isOwn
    refine absurd ?_ (provides.unknown (lenient unknown) _ unknown)
    rw [← typeName]
    simp only [PeerStruct.ofDefinition, unknown, Option.elim_none]
  | some s =>
    obtain ⟨known, named⟩ := PeerStruct.typeName_ofDefinition isOwn
    exact congrArg some (provides.only known (named.symm.trans typeName))

theorem ensures_peerRecord {p : PeerStruct} {s : ReadState} (versed : s.Versed env.registry)
    (received : p ∈ s.received) (lenient : p.own = none → env.config.requireRegistration = false)
    (slot : Option Nat) :
    Ensures (peerRecord env inner p slot) s fun _ t => s.Completes env own f t := by
  obtain ⟨e, met, d, rfl⟩ := versed.received p received
  unfold peerRecord
  split
  · rename_i other same isOwn
    refine ensures_record provides payload (PeerStruct.typeName_ofDefinition isOwn).1 false slot versed
      fun name reconciles => ?_
    cases provides.only (PeerStruct.typeName_ofDefinition isOwn).1 name
    have found : env.registry.structOf? d.identity = some own := isOwn
    simp only [PeerStruct.ofDefinition, found, Option.any_some, decide_eq_true_eq] at same
    exact reconciles.2 e met same
  · exact ensures_reconciled provides payload lenient slot versed

/-! ## Payloads -/

omit payload in
theorem completesPayload_layer {deeper : Option ReadPayload}
    (h : ∀ inner, deeper = some inner → CompletesPayload env own f inner) :
    CompletesPayload env own f (layer env deeper) := by
  refine ⟨fun wire shape slot s versed allowed apart => ?_, present_layer deeper⟩
  have descend {g : ReadPayload → Read Value} (hg : ∀ inner, CompletesPayload env own f inner →
      Ensures (g inner) s fun _ t => s.Completes env own f t) :
      Ensures (check (env.descend deeper) >>= g) s fun _ t => s.Completes env own f t := by
    refine Ensures.bind (Q := fun inner t => t = s ∧ CompletesPayload env own f inner)
      (.check fun inner found => ⟨rfl, h inner (Environment.inner_of_descend found)⟩) ?_
    rintro inner _ ⟨rfl, payload⟩
    exact hg inner payload
  cases wire with
  | builtin t =>
    simp only [layer]
    split
    · refine descend fun inner payload => ?_
      refine container_cases (P := fun m => Ensures m s fun _ t => s.Completes env own f t) ‹_›
        ?_ ?_ ?_ <;> rintro rfl
      · exact completes_items provides payload (.inl rfl) slot apart s versed
      · exact completes_items provides payload (.inr rfl) slot apart s versed
      · exact completes_entries provides payload slot apart s versed
    · exact Completes.scalar _ t s versed
  | struct other strict =>
    exact descend fun inner payload => ensures_record provides payload allowed.1 strict slot versed
      fun same reconciles => allowed.2 reconciles.1 same
  | peer p =>
    exact descend fun inner payload => ensures_peerRecord provides payload versed allowed.1 allowed.2 slot
  | «enum» typeName members =>
    have ordinal : Completes env own f (decode Decode.varuint32) := .decode _
    refine (ordinal s versed).bind fun ordinal t step => ?_
    split
    · exact .pure step
    · exact .throw _

omit payload in
theorem completesPayload (levels : Nat) : CompletesPayload env own f (Read.payload env levels) := by
  induction levels with
  | zero => exact completesPayload_layer provides fun _ none => by cases none
  | succ levels ih => exact completesPayload_layer provides fun inner same => by cases same; exact ih

omit payload in
/-- A frame that is read leaves no record of the struct without a value in the field. -/
theorem completes_frame (mode : RefMode) : Completes env own f (frame env mode) := by
  intro s versed
  have moved (reader : Reader) : s.Completes env own f { s with reader } := .moved s reader
  refine ensures_frame moved fun reader => ?_
  exact (completes_marked provides (completesPayload provides env.config.maxDepth) mode
    (fun _ _ => List.not_mem_nil) _ ((moved reader).versed versed)).mono
      fun _ _ step => (moved reader).trans step

end

end Read

/-! ## Instances -/

/-- The type of an enumeration is told by its name. -/
theorem Field.isNamed_of_isEnum {lookup : NamedLookup} {f : Field}
    (resolved : f.type = f.shape.typeId lookup) (declarable : f.shape.undeclarable? = none)
    (enum : f.type.isEnum = true) : f.shape.isNamed = true := by
  rw [resolved] at enum
  cases shape : f.shape with
  | named => rfl
  | scalar t =>
    rw [shape] at enum declarable
    have user : t.isUser = true := by
      have enum : t.isEnum = true := enum
      simp only [TypeId.isUser, enum, Bool.true_or]
    simp [Shape.undeclarable?, TypeId.isDeclarable_of_isUser user] at declarable
  | _ => rw [shape] at enum; cases enum

/-- A field of a known type tells a code of it, or none. -/
theorem Field.Described.told {lookup : NamedLookup} {f : Field} (described : f.Described lookup)
    (registered : lookup.Registered) (named : f.shape.isNamed = true) :
    f.fieldType.type = .unknown ∨ f.fieldType.type.isUser = true := by
  rw [described.fieldType]
  cases dynamic : f.dynamic with
  | true => exact .inl rfl
  | false =>
    cases shape : f.shape with
    | named name =>
      obtain ⟨info, known⟩ := Option.isSome_iff_exists.1 ((described.known dynamic).2 name shape)
      refine .inr ?_
      simp only [Bool.false_eq_true, if_false, Shape.fieldType, known]
      exact registered name info known
    | _ => rw [shape] at named; cases named

namespace Instance

/-- The fields that nulls were read for in a frame, each with its record. -/
def nulls (i : Instance) (bytes : List UInt8) : List (Handle × String) :=
  match i.checkFault with
  | .error _ => []
  | .ok () => (Read.final (Read.frame i.environment i.rootMode (.ofBytes bytes i.cache))).nulls

theorem nulls_of_sane (i : Instance) (bytes : List UInt8) (sane : i.fault = none) :
    i.nulls bytes =
      (Read.final (Read.frame i.environment i.rootMode (.ofBytes bytes i.cache))).nulls := by
  have checked : i.checkFault = .ok () := by simp only [checkFault, sane]
  unfold nulls
  rw [checked]

/-- Whether all records of a struct in a frame are read by the fields of the definition that they come with:
no field declares a container of such records, and the frame does not bring the definition that the struct
has here. -/
def Reconciles (i : Instance) (bytes : List UInt8) (s : StructType) : Prop :=
  i.environment.Separates s ∧ ∀ e ∈ i.met bytes, s.header? ≠ some e.1

/-- What is asked of the types holds of a field that passed the checks in compatible mode. -/
theorem Reachable.provides {i : Instance} (reachable : i.Reachable) (sane : i.fault = none)
    (compatible : i.config.compatible = true) {name : String} {s : StructType}
    (found : i.registry.struct? name = some s)
    (unknown : i.config.requireRegistration = false → ∀ n, i.registry.structOf? (.id n) = none →
      name ≠ (TypeIdentity.id n).text)
    {f : Field} (member : f ∈ s.fields) (required : f.nullable = false) (noFactory : f.template = none)
    (known : f.shape.isNamed = true → f.type = .unknown → f.constant.isSome = true) :
    (i.setStrategy .interpreted).environment.Provides s f := by
  have built := reachable.sound.built sane
  have named : s.qualifiedName = name := (built.built found).qualifiedName
  refine
    { interpreted := rfl
      compatible := fun t ⟨_, found⟩ => (built.built found).kind_eq.trans compatible
      named := fun _ _ found => (built.built found).qualifiedName
      found := named ▸ found
      member
      names := fun g member' same =>
        List.inj_on_of_nodup_map (built.built found).names member' member same
      required
      default := ?_
      unknown := fun lenient identity none same => ?_
      told := fun t ⟨_, found⟩ g member => ?_ }
  · obtain ⟨config, d, own, -, made⟩ := reachable.assembled.build found
    have checked := Registry.checkDefault_of_build made member
    rw [own sane, compatible] at checked
    obtain ⟨lookup, -, types⟩ := (reachable.fingerprinted sane found).types
    obtain ⟨_, -, fields⟩ := (reachable.described sane found).fields
    exact Registry.default_of_checkDefault checked required noFactory known
      (Field.isNamed_of_isEnum (types f member) (fields f member).declarable)
  · cases identity with
    | id n => exact unknown lenient n none (named.symm.trans same.symm)
    | names package typeName =>
      have same : qualify package typeName = name := same.trans named
      have here : i.registry.structOf? (.names package typeName) = some s := by
        simp only [Registry.structOf?, Registry.byName?, same, Registry.named?, found]
      cases here.symm.trans none
  · obtain ⟨lookup, registered, fields⟩ := (reachable.described sane found).fields
    exact (fields g member).told registered

/-- No field that may not be null is left unset in compatible mode, whatever the peer's definition of the
type is and whatever the payload. In every record of a registered type in the result, a field without a
default factory that is not nullable has a value other than null, unless it refers to a type that is not
registered and has no constant. Exempt are the parts of what default factories made. If a null was read for
a field that is a reference, this is said where records are read by the definitions that they come with; and
where an unknown identifier is taken, its name is not the one of the type. -/
theorem Reachable.required_fields_set {i : Instance} (reachable : i.Reachable)
    (compatible : i.config.compatible = true) {bytes : List UInt8} {v : Value} {g : Graph}
    (read : (i.deserialize bytes).1 = .ok (v, g)) {name : String} {s : StructType}
    (found : i.registry.struct? name = some s)
    (unknown : i.config.requireRegistration = false → ∀ n, i.registry.structOf? (.id n) = none →
      name ≠ (TypeIdentity.id n).text)
    {h : Handle} {r : Record} (node : g.node h = .record r) (type : r.typeName = name)
    (decoded : ∀ e ∈ i.filled bytes, ¬e.Fabricated i.registry h)
    {f : Field} (member : f ∈ s.fields) (required : f.nullable = false) (noFactory : f.template = none)
    (known : f.shape.isNamed = true → f.type = .unknown → f.constant.isSome = true)
    (reconciles : f.tracked = true → (h, f.name) ∈ i.nulls bytes → i.Reconciles bytes s) :
    ∃ w, r.get? f.name = some w ∧ w.isNull = false := by
  obtain ⟨sane, st, rfl, run⟩ := ok_of_deserialize read
  have provides := reachable.provides sane compatible found unknown member required noFactory known
  have versed : (ReadState.ofBytes bytes i.cache).Versed i.registry :=
    ⟨fun _ member => absurd member List.not_mem_nil, reachable.cache_madeBy⟩
  have step := Read.completes_frame provides i.rootMode _ versed v st (reachable.frame_interpreted sane run)
  have quiet (tracked : f.tracked = true) (null : (h, f.name) ∈ st.nulls) :
      st.Reconciles (i.setStrategy .interpreted).environment s := by
    rw [i.nulls_of_sane bytes sane, run] at reconciles
    obtain ⟨separate, apart⟩ := reconciles tracked null
    rw [i.met_of_sane bytes sane, run] at apart
    exact ⟨separate, apart⟩
  have spared : ∀ e ∈ st.filled, ¬e.Fabricated i.registry h := by
    rw [i.filled_of_sane bytes sane, run] at decoded
    exact decoded
  refine step.new h (Nat.zero_le _) quiet spared r node ?_
  exact type.trans (reachable.sound.built sane |>.built found).qualifiedName.symm

/-- A frame with a record of the type with the identifier 1, which has no fields there. -/
def fieldlessFrame : List UInt8 :=
  [0xd4, 0x62, 0x06, 0xff, 0x1c, 0x00, 0x02, 0x40, 0x25, 0x80, 0xe4, 0xdc, 0x80, 0x49, 0x00, 0x01]

/-- An instance in compatible mode whose type has a field with a constant. -/
def stocked : Instance :=
  [.setCompatible true, .registerStruct (some 1) (defaulting (.scalar .int32) (.int 7))].foldl perform fresh

/-- The field that the frame leaves out has a value. -/
theorem required_fields_set_stocked : ∃ r s f, (stocked.deserialize fieldlessFrame).1 =
      .ok (.handle ⟨0⟩, ⟨#[.record r]⟩) ∧ stocked.registry.struct? "demo.T" = some s ∧ f ∈ s.fields ∧
    f.nullable = false ∧ f.template = none ∧ r.typeName = "demo.T" ∧
      ∃ w, r.get? f.name = some w ∧ w.isNull = false := by
  let s := (stocked.registry.struct? "demo.T").get (by decide +kernel)
  let f := s.fields.head (by decide +kernel)
  let r := (Record.ofType "demo.T").set "x" (.int (.wrap .int32 7))
  have found : stocked.registry.struct? "demo.T" = some s := (Option.some_get _).symm
  have member : f ∈ s.fields := List.head_mem _
  have required : f.nullable = false := by decide +kernel
  have noFactory : f.template = none := by decide +kernel
  have constant : f.constant.isSome = true := by decide +kernel
  have untracked : f.tracked = false := by decide +kernel
  have strict : stocked.config.requireRegistration = true := by decide +kernel
  have read : (stocked.deserialize fieldlessFrame).1 = .ok (.handle ⟨0⟩, ⟨#[.record r]⟩) := by
    decide +kernel
  have scalars : (stocked.filled fieldlessFrame).all (fun e => e.default.graph.size = 0) = true := by
    decide +kernel
  refine ⟨r, s, f, read, found, member, required, noFactory, rfl, ?_⟩
  have reachable : stocked.Reachable := ⟨_, rfl⟩
  refine reachable.required_fields_set (h := ⟨0⟩) (by decide +kernel) read found (fun lenient => ?_) rfl rfl
    (fun e filled fabricated => ?_) member required noFactory (fun _ _ => constant) fun tracked _ => ?_
  · rw [strict] at lenient
    cases lenient
  · have empty : e.default.graph.size = 0 := by simpa using List.all_eq_true.1 scalars e filled
    have covers := fabricated.1
    rw [Filling.Covers, empty] at covers
    exact absurd covers.2 (Nat.not_lt.2 covers.1)
  · rw [untracked] at tracked
    cases tracked

/-- An instance in compatible mode whose type refers to a type that is not registered. -/
def expecting : Instance :=
  [.setCompatible true, .registerStruct (some 1)
    ⟨.ofNames "demo" "T", none, false, [.ofShape "e" (.named "demo.E")]⟩].foldl perform fresh

/-- A field that is not nullable is left unset where the frame leaves it out and its type is not
registered. -/
theorem required_field_left_unset : expecting.Reachable ∧ expecting.config.compatible = true ∧
    (expecting.registry.struct? "demo.T").map (fun s =>
      s.fields.map fun f => (f.name, f.nullable, f.template)) = some [("e", false, none)] ∧
    (expecting.deserialize fieldlessFrame).1 = .ok (.handle ⟨0⟩, ⟨#[.record (.ofType "demo.T")]⟩) := by
  refine ⟨⟨_, rfl⟩, ?_⟩
  decide +kernel

end Instance

end Graphwire
