import Graphwire.Proofs.Fingerprints
import Graphwire.Proofs.SameLayout
import Graphwire.Proofs.StableNumbers
import Mathlib.Data.List.Dedup

/-!
# Records of types that a reader does not have

A reader that does not have a struct makes a record without a struct of what was sent for it. Every
field that is not null gets an entry under its key, the text of its tag or else its name, and nothing
else does. Tags and names share one space of keys, and nothing keeps a struct from having a field whose
name is the text of another one's tag: of two fields with one key the record keeps the later one. What
carries the proof is that a marker tells a null from the rest, and that a reader which stays aligned
with the writer takes one field after the other.
-/

namespace Graphwire

set_option autoImplicit false

open Read (RunsIf Reproduces Fills)

/-! ## Entries -/

theorem FieldTable.mem_names {t : FieldTable} {name : String} :
    name ∈ t.names ↔ (t.get? name).isSome = true := by
  constructor
  · intro member
    obtain ⟨e, listed, rfl⟩ := List.mem_map.1 member
    exact Option.isSome_iff_exists.2 ⟨e.2, lookup_of_mem t.sorted listed⟩
  · intro set
    obtain ⟨v, found⟩ := Option.isSome_iff_exists.1 set
    exact List.mem_map.2 ⟨_, mem_of_lookup found, rfl⟩

theorem FieldTable.mem_names_set {t : FieldTable} {name other : String} {v : Value} :
    other ∈ (t.set name v).names ↔ other ∈ t.names ∨ other = name := by
  rw [mem_names, mem_names, get?_set]
  by_cases same : other = name <;> simp [same]

theorem FieldTable.nodup_names (t : FieldTable) : t.names.Nodup :=
  (List.pairwise_map.2 t.sorted).imp (R := (· < ·)) fun lt => String.ne_of_lt lt

/-- The keys of the fields that are not null in a record. -/
def Record.sentKeys (r : Record) (fs : List Field) : List String :=
  (fs.filter fun f => !(r.value f.name).isNull).map Field.key

/-- Whether a record gets entries under some keys, and under no others. -/
structure Record.Gathers (keys : List String) (r r' : Record) : Prop where
  typeName : r'.typeName = r.typeName
  names : ∀ name, name ∈ r'.fields.names ↔ name ∈ r.fields.names ∨ name ∈ keys

namespace Record.Gathers

variable {keys keys' : List String} {r r' r'' : Record}

theorem nil (r : Record) : Gathers [] r r := ⟨rfl, fun name => by simp⟩

theorem append (first : Gathers keys r r') (second : Gathers keys' r' r'') :
    Gathers (keys ++ keys') r r'' :=
  ⟨second.typeName.trans first.typeName, fun name => by
    rw [second.names, first.names, List.mem_append, or_assoc]⟩

theorem set (r : Record) (name : String) (v : Value) : Gathers [name] r (r.set name v) :=
  ⟨rfl, fun _ => FieldTable.mem_names_set.trans (or_congr_right List.mem_singleton.symm)⟩

end Record.Gathers

/-! ## Nulls -/

namespace Read

variable {α : Type} {m : Read Value} {front back bytes : List UInt8} {null : Bool}

/-- Whether bytes tell if the value that a reader makes of them, if it makes one, is null. -/
def Tells (m : Read Value) (bytes : List UInt8) (null : Bool) : Prop :=
  ∀ (st : ReadState) p rest, Ensures m { st with reader := ⟨p, bytes ++ rest⟩ } fun v _ => v.isNull = null

theorem Present.tells (present : Present m) (bytes : List UInt8) : Tells m bytes false :=
  fun _ _ _ => present _

theorem Takes.tells {v : Value} (takes : Takes m bytes v) : Tells m bytes v.isNull := by
  intro st p rest u st' run
  obtain ⟨p', took⟩ := takes { st with reader := ⟨p, bytes ++ rest⟩ } rest rfl
  cases took.symm.trans run
  rfl

theorem Tells.after {first : Read α} {a : α} {f : α → Read Value} (takes : Takes first front a)
    (then_ : Tells (f a) back null) : Tells (first >>= f) (front ++ back) null := by
  intro st p rest v st' run
  obtain ⟨p', took⟩ := takes { st with reader := ⟨p, front ++ back ++ rest⟩ } (back ++ rest)
    (List.append_assoc ..)
  rw [bind_of_ok took] at run
  exact then_ st p' rest v st' run

variable {env : Environment} {inner : ReadPayload}

/-- A marker in front of a value that is not null is not that of a null. -/
theorem tells_marked_notNull (present : ∀ wire shape slot, Present (inner wire shape slot))
    {mode : RefMode} (some : mode ≠ .none) (hasType : Bool) (shape : Shape) (bytes : List UInt8) :
    Tells (marked env inner mode hasType shape) (RefFlag.notNull.encode ++ bytes) false := by
  unfold marked
  rw [if_neg some]
  refine .after (takes_refFlag .notNull) (Present.tells ?_ bytes)
  dsimp only
  rw [typed_eq]
  exact .after fun wire => present wire shape none

variable {W R : Environment} {g : Graph} {before last : Notes} {pending : Option (Handle × Shape)}
  {P Q : List Copy → Value → Prop}

theorem Reproduces.mono (reads : Reproduces W R g before pending last m bytes P)
    (weaker : ∀ all v, P all v → Q all v) : Reproduces W R g before pending last m bytes Q := by
  intro few copies st aligned
  refine (reads few copies st aligned).mono ?_
  rintro v st' ⟨made, aligned', ext, later⟩
  exact ⟨made, aligned', ext, fun all g' sub agrees =>
    (later all g' sub agrees).imp_right (weaker all v)⟩

theorem Reproduces.tells (reads : Reproduces W R g before pending last m bytes P)
    (tells : Tells m bytes null) :
    Reproduces W R g before pending last m bytes fun _ v => v.isNull = null := by
  intro few copies st aligned p rest
  refine (reads few copies st aligned p rest).imp_left ?_
  rintro ⟨v, st', p', run, made, aligned', ext, later⟩
  exact ⟨v, st', p', run, made, aligned', ext, fun all g' sub agrees =>
    ⟨(later all g' sub agrees).1, tells _ _ _ _ _ run⟩⟩

end Read

/-- What is written of a scalar tells whether it is null. -/
theorem Write.ensures_marked_tells {W R : Environment} {g : Graph} {write : WritePayload}
    {read : ReadPayload} (present : ∀ wire shape slot, Read.Present (read wire shape slot)) {v : Value}
    (scalar : v.handle? = none) {mode : RefMode} {hasType hasType' : Bool} {shape shape' : Shape}
    {ws : WriteState} :
    Write.Ensures (Write.marked W g write mode hasType shape v) ws fun bytes _ =>
      Read.Tells (Read.marked R read mode hasType' shape') bytes v.isNull := by
  have marked {mode : RefMode} (some : mode ≠ .none) (bytes : List UInt8) :
      Read.Tells (Read.marked R read mode hasType' shape') (RefFlag.notNull.encode ++ bytes) false :=
    Read.tells_marked_notNull present some hasType' shape' bytes
  by_cases tracking : mode = .tracking
  · subst tracking
    refine Write.ensures_marked (SeenHandles.mark_scalar scalar) (fun null => ?_) fun some bytes _ _ => ?_
    · rw [if_pos null]
      cases Value.eq_null_of_isNull null
      exact (Read.takes_marked_null (by decide)).tells
    · rw [if_neg (by simp [some]), some]
      exact marked (by decide) bytes
  · refine Write.ensures_marked_untracked tracking (fun null nullable => ?_) fun some bytes _ _ => ?_
    · subst null nullable
      exact (Read.takes_marked_null (by decide)).tells
    · have present' : v.isNull = false := by
        cases v with
        | null => exact absurd rfl some
        | _ => rfl
      rw [present']
      refine ⟨fun nullable => ?_, fun plain => ?_⟩
      · subst nullable
        exact marked (by decide) bytes
      · subst plain
        exact (Read.present_marked present hasType' shape').tells bytes

/-! ## Fields -/

/-- The entry of a field goes by the key of the field. -/
theorem PeerField.name_ofEntry_ofField (f : Field) :
    (PeerField.ofEntry none (.ofField f) none).name = f.key := by
  show (FieldEntry.ofField f).key = f.key
  unfold FieldEntry.key Field.key FieldEntry.ofField
  cases f.tag <;> rfl

/-- An entry of a field is filled unless the value is null. -/
theorem Read.Fills.gathers {W R : Environment} {g : Graph} {notes last : Notes} {bytes : List UInt8}
    {env : Environment} {inner : ReadPayload} {p : PeerStruct} {f : PeerField} {null : Bool}
    (own : p.own = none) (noField : f.own = none)
    (hv : Reproduces W R g notes none last (Read.marked env inner f.refMode f.typed f.shape) bytes
      fun _ v => v.isNull = null) :
    Fills W R g notes last (fun h => Read.peerField env inner p h f) bytes fun _ =>
      Record.Gathers (if null then [] else [f.name]) := by
  refine .ofValue (fun v h => Read.keepField p h f v) hv fun v => ?_
  unfold Read.keepField
  rw [own, noField]
  dsimp only [Option.bind_none]
  cases empty : v.isNull with
  | true => exact .nil fun _ r told => told ▸ .nil r
  | false => exact (set f.name v).mono fun _ r r' same told => told ▸ same ▸ .set r f.name v

namespace Passes

variable {W R : Environment} {g : Graph} {levels : Nat} {write : WritePayload} {read : ReadPayload}
  (reaches : W.Reaches R g) (passes : Passes W R g levels write read)
  (present : ∀ wire shape slot, Read.Present (read wire shape slot)) {s : StructType}
  (evolves : s.Evolves) {r : Record} (short : ∀ part ∈ (Node.record r).contents, part.Short)

include reaches passes present evolves short

/-- A field is conveyed to its entry as a null or as something else. -/
theorem entryField_tells {f : Field} (member : f ∈ s.fields) :
    Conveys W g (Write.field W g write s r f) ((f.use r).note (W.enter g levels (f.use r)))
      fun notes notes' bytes => Reproduces W R g notes none notes'
        (Read.marked R read (PeerField.ofEntry none (.ofField f) none).refMode
          (PeerField.ofEntry none (.ofField f) none).typed
          (PeerField.ofEntry none (.ofField f) none).shape) bytes fun _ v =>
            v.isNull = (r.value f.name).isNull := by
  have conveyed := passes.entryField reaches evolves short member
  cases handle : (r.value f.name).handle? with
  | some h =>
    have node := Value.eq_handle_of_handle? handle
    refine conveyed.mono fun _ _ _ reads => reads.mono fun all v copied => ?_
    obtain ⟨c, -, -, -, -, rfl⟩ := copied h node
    rw [node]
    rfl
  | none =>
    obtain ⟨lookup, -, described⟩ := evolves.described.fields
    have tells (ws : WriteState) : Write.Ensures (Write.field W g write s r f) ws fun bytes _ =>
        Read.Tells (Read.marked R read (PeerField.ofEntry none (.ofField f) none).refMode
          (PeerField.ofEntry none (.ofField f) none).typed
          (PeerField.ofEntry none (.ofField f) none).shape) bytes (r.value f.name).isNull := by
      rw [(described f member).refMode_entry]
      unfold Write.field
      dsimp only
      split
      · exact .throw _
      · exact Write.ensures_marked_tells present handle
    intro notes ws noted
    refine ((conveyed notes ws noted).and (tells ws)).mono ?_
    rintro bytes ws' ⟨⟨notes', noted', numbered, begins, reads⟩, tells⟩
    exact ⟨notes', noted', numbered, begins, reads.tells tells⟩

/-- The fields of a struct that the reader does not have are gathered under their keys. -/
theorem gathersFields {p : PeerStruct} (own : p.own = none) {fs : List Field} (sub : fs ⊆ s.fields) :
    Conveys W g (Write.concat (Write.field W g write s r) fs)
      (fun numbered => fs.foldl
        (fun numbered f => (f.use r).note (W.enter g levels (f.use r)) numbered) numbered)
      fun notes notes' bytes => Fills W R g notes notes' (fun h =>
        Read.each (Read.peerField R read p h) (fs.map fun f => .ofEntry none (.ofField f) none)) bytes
          fun _ => Record.Gathers (r.sentKeys fs) := by
  induction fs with
  | nil => exact .pure (fun _ => rfl) fun _ => .nil fun _ => .nil
  | cons f fs ih =>
    obtain ⟨member, sub⟩ := List.cons_subset.1 sub
    intro notes ws noted
    refine (passes.entryField_tells reaches present evolves short member notes ws noted).bind ?_
    rintro front ws₁ ⟨notes₁, noted₁, same₁, begins₁, here⟩
    refine (ih sub notes₁ ws₁ noted₁).bind ?_
    rintro back ws₂ ⟨notes₂, noted₂, same₂, begins₂, there⟩
    refine .pure ⟨notes₂, noted₂, by rw [same₂, same₁]; rfl, begins₁.trans begins₂, ?_⟩
    refine (Read.Fills.gathers own rfl here).bind begins₂ there fun _ r₀ r₁ r₂ first second => ?_
    have keys : r.sentKeys (f :: fs) = (if (r.value f.name).isNull then [] else
        [(PeerField.ofEntry none (.ofField f) none).name]) ++ r.sentKeys fs := by
      rw [PeerField.name_ofEntry_ofField]
      cases null : (r.value f.name).isNull <;> simp [Record.sentKeys, null]
    rw [keys]
    exact first.append second

end Passes

/-! ## Records -/

/-- The type of a record is told and read as what the reader makes of its struct. -/
theorem Environment.Reaches.ensures_recordInfo {W R : Environment} {g : Graph} {notes : Notes}
    {ws : WriteState} {v : Value} {r : Record} {s : StructType} (reaches : W.Reaches R g)
    (isRecord : g.asRecord? v = some r) (written : W.structFor? r = some s)
    (noted : Noted W g notes ws) :
    Write.Ensures (Write.typeInfo W g v) ws fun i ws' => i.2 = .struct s false ∧
      ∃ told, Noted W g { notes with told } ws' ∧ ∀ st, W.Told R g notes.told st →
        RunsIf False (Read.typeInfo R) st i.1 fun wire' st' =>
          (WireType.struct s false).Faces R.registry wire' ∧ W.Told R g told st' ∧
            st'.graph = st.graph ∧ st'.slots = st.slots := by
  refine (Write.ensures_typeInfo_introduces noted reaches.writer.toDescribing).mono ?_
  rintro i ws' ⟨told, introduces, noted'⟩
  cases introduces with
  | record isRecord' written' admitted unique =>
    cases isRecord.symm.trans isRecord'
    cases written.symm.trans written'
    exact ⟨rfl, _, noted', fun st kept => reaches.runsIf_recordInfo isRecord written kept unique
      (reaches.few _ (fun s' member => (noted'.known s' member).1) noted'.once)⟩
  | «enum» => cases isRecord
  | unknownEnum => cases isRecord
  | builtin inferred => cases isRecord.symm.trans (Graph.asRecord?_of_inferType? inferred)

/-- Whether a value is a record of a type with entries under some keys, and under no others. -/
def Graph.Gathered (g : Graph) (typeName : String) (keys : List String) (v : Value) : Prop :=
  ∃ h r, v = .handle h ∧ g.node h = .record r ∧ Record.Gathers keys (.ofType typeName) r

/-- Whether a reader that is aligned with a writer, if it takes the bytes, makes such a record of them. -/
def Read.Gathers (W R : Environment) (g : Graph) (before : Notes) (pending : Option (Handle × Shape))
    (last : Notes) (m : Read Value) (bytes : List UInt8) (typeName : String) (keys : List String) : Prop :=
  last.numbered.length ≤ 2 ^ 32 → ∀ copies st, Aligned W R g before pending copies st →
    RunsIf False m st bytes fun v st' => st'.graph.Gathered typeName keys v

namespace Read.Gathers

variable {W R : Environment} {g : Graph} {before last : Notes} {bytes : List UInt8} {keys : List String}
  {use : Use}

/-- A record that is read by the fields of a peer's struct gathers what they gather. -/
theorem reconciled {h : Handle} (value : use.value = .handle h) {p : PeerStruct} (own : p.own = none)
    {inner : ReadPayload} (fills : Fills W R g before last
      (fun h => each (Read.peerField R inner p h) p.fields) bytes fun _ => Record.Gathers keys) :
    Read.Gathers W R g before use.pending last (Read.reconciled R inner p (use.slot before)) bytes
      p.typeName keys := by
  intro few copies st aligned
  refine runsIf_reconciled ?_
  have bound : st.graph.size <
      (st.opened (.record (.ofType p.typeName)) (use.slot before)).graph.size := by
    simp [ReadState.opened]
  rw [PeerStruct.lacking_eq_nil own]
  refine (fills few _ _ ⟨st.graph.size⟩ (.ofType p.typeName) (aligned.opened value _)
    (Graph.node_alloc_new ..) bound).then ?_
  rintro _ st' ⟨made, r, -, -, held, later⟩
  exact .pure ⟨_, r, rfl, held, (later _ _ (List.Subset.refl _) fun _ _ _ => rfl).2⟩

theorem descend {pending : Option (Handle × Shape)} {read : Option ReadPayload} {r : ReadPayload}
    (only : ∀ r', read = some r' → r' = r) {m : ReadPayload → Read Value} {typeName : String}
    (h : Read.Gathers W R g before pending last (m r) bytes typeName keys) :
    Read.Gathers W R g before pending last (Read.check (R.descend read) >>= m) bytes typeName keys :=
  fun few copies st aligned => .check nofun fun r' same => by
    cases only r' (Environment.inner_of_descend same)
    exact h few copies st aligned

end Read.Gathers

namespace Passes

variable {W R : Environment} {g : Graph} (reaches : W.Reaches R g) {s : StructType} {r : Record}
  {use : Use} {h : Handle} (value : use.value = .handle h) (here : g.node h = .record r)
  (written : W.structFor? r = some s) (unknown : R.registry.structOf? s.identity = none)

include reaches value here written unknown

/-- A record of a struct that the reader does not have is gathered. -/
theorem gathersRecord {levels : Nat} {write : WritePayload} {read : ReadPayload}
    (passes : Passes W R g levels write read)
    (present : ∀ wire shape slot, Read.Present (read wire shape slot)) :
    Conveys W g (Write.record W g write s false r) (W.enter g (levels + 1) use)
      fun notes notes' bytes => Read.Gathers W R g notes use.pending notes'
        (Read.peerRecord R read (R.registry.peer s) (use.slot notes)) bytes s.identity.text
          (r.sentKeys s.fields) := by
  obtain ⟨evolves, -⟩ := reaches.writer.evolves_of_structFor? written
  obtain ⟨header, after, defined⟩ := reaches.distinguished.defined s (.inl ⟨h, r, here, written⟩)
  have short : ∀ part ∈ (Node.record r).contents, part.Short := here ▸ reaches.sized.parts h
  have untold : R.registry.structOf? (s.told header).identity = none :=
    (s.identity_told header).symm ▸ unknown
  obtain ⟨own, -, fields⟩ := Registry.peerOf_unknown untold
  have sent := passes.gathersFields reaches present evolves short own (List.Subset.refl s.fields)
  rw [defined.peer_eq]
  refine (record_of_fields value here written reaches.writer.strategy sent).mono
    fun notes notes' bytes fills => ?_
  rw [← fields] at fills
  rw [Read.peerRecord_eq_reconciled (.inr own), ← Registry.typeName_peerOf_unknown untold]
  exact .reconciled value own fills

/-- A payload of a struct that the reader does not have is gathered, however many levels the reader may
enter. -/
theorem gathersPayload (levels levels' : Nat) (shape' : Shape) :
    Conveys W g (Write.payload W g levels (.struct s false) use.shape use.value) (W.enter g levels use)
      fun notes notes' bytes => Read.Gathers W R g notes use.pending notes'
        (Read.payload R levels' (.peer (R.registry.peer s)) shape' (use.slot notes)) bytes
          s.identity.text (r.sentKeys s.fields) := by
  have isRecord : g.asRecord? use.value = some r := value ▸ Graph.asRecord?_of_node here
  have record (k : Nat) : Conveys W g (Write.record W g (Write.payload W g k) s false r)
      (W.enter g (k + 1) use) fun notes notes' bytes => Read.Gathers W R g notes use.pending notes'
        (Read.payload R levels' (.peer (R.registry.peer s)) shape' (use.slot notes)) bytes
          s.identity.text (r.sentKeys s.fields) := by
    cases levels' with
    | zero =>
      exact (gathersRecord reaches value here written unknown (Passes.payload reaches k 0)
        (Read.present_payload 0)).mono fun _ _ _ reads => .descend (fun _ none => by cases none) reads
    | succ k' =>
      exact (gathersRecord reaches value here written unknown (Passes.payload reaches k k')
        (Read.present_payload k')).mono fun _ _ _ reads =>
          .descend (fun _ same => (Option.some.inj same).symm) reads
  intro notes ws noted
  cases levels with
  | zero =>
    simp only [Write.payload, Write.layer, isRecord]
    split
    · exact .throw _
    · exact Write.ensures_descend fun _ none => by cases none
  | succ k =>
    simp only [Write.payload, Write.layer, isRecord]
    split
    · exact .throw _
    · refine Write.ensures_descend fun w same => ?_
      cases same
      exact record k notes ws noted

/-- A record with its type is gathered. -/
theorem gathersTyped (levels levels' : Nat) (shape' : Shape) :
    Conveys W g (Write.typed W g (Write.payload W g levels) true use.shape use.value)
      (W.enter g levels use) fun notes notes' bytes => Read.Gathers W R g notes use.pending notes'
        (Read.typed R (Read.payload R levels') true shape' (use.slot notes)) bytes s.identity.text
          (r.sentKeys s.fields) := by
  have isRecord : g.asRecord? use.value = some r := value ▸ Graph.asRecord?_of_node here
  intro notes ws noted
  dsimp only
  rw [Read.typed_eq]
  refine (reaches.ensures_recordInfo isRecord written noted).bind ?_
  rintro ⟨info, wire⟩ ws₁ ⟨rfl, told, noted₁, reads⟩
  refine (gathersPayload reaches value here written unknown levels levels' shape'
    { notes with told } ws₁ noted₁).bind ?_
  rintro bytes ws₂ ⟨notes₂, noted₂, numbered, begins, payload⟩
  refine .pure ⟨notes₂, noted₂, numbered, begins, fun few copies st aligned => ?_⟩
  refine (reads st aligned.told).bind ?_
  rintro wire' st₁ ⟨faces, keeps, graph, slots⟩
  cases faces
  exact payload few copies st₁
    { numbered := aligned.numbered
      slots := slots ▸ aligned.slots
      bounds := graph ▸ aligned.bounds
      apart := aligned.apart
      told := keeps }

/-- A record behind its marker is gathered where it was not met before. -/
theorem gathersMarked (levels levels' : Nat) (shape' : Shape) {notes : Notes} {ws : WriteState}
    (noted : Noted W g notes ws) (new : h ∉ notes.numbered.map (·.1)) :
    Write.Ensures (Write.marked W g (Write.payload W g levels) (.ofFlags true use.tracked) true use.shape
        use.value) ws fun bytes ws' => ∃ notes', Noted W g notes' ws' ∧
      notes'.numbered = use.note (W.enter g levels use) notes.numbered ∧
        Read.Gathers W R g notes none notes'
          (Read.marked R (Read.payload R levels') (.ofFlags true use.tracked) true shape') bytes
            s.identity.text (r.sentKeys s.fields) := by
  cases tracked : use.tracked with
  | false =>
    have typed := gathersTyped reaches value here written unknown levels levels' shape' notes ws noted
    refine Write.ensures_marked_untracked (by decide) (fun null => ?_) fun _ => typed.mono ?_
    · rw [value] at null
      cases null
    · rintro bytes ws' ⟨notes', noted', numbered, -, reads⟩
      refine ⟨fun _ => ⟨notes', noted', ?_, fun few copies st aligned => ?_⟩,
        fun plain => by cases plain⟩
      · rw [numbered, Use.note_of_untracked value tracked]
      · have pending : use.pending = none := by simp [Use.pending, tracked]
        simp only [Use.slot, pending, Option.map_none] at reads
        exact Read.runsIf_marked_notNull (by decide) (reads few copies st aligned)
  | true =>
    let notes₁ : Notes := { notes with numbered := notes.numbered ++ [(h, use.shape)] }
    have waiting : use.pending = some (h, use.shape) := by
      simp [Use.pending, tracked, value, Value.handle?]
    have typed := gathersTyped reaches value here written unknown levels levels' shape' notes₁ _
      (noted.number new use.shape)
    have marking : ws.seen.mark use.value =
        ((false, RefFlag.newRef.encode), ⟨ws.seen.handles ++ [h]⟩) :=
      value ▸ SeenHandles.mark_new (noted.seen ▸ new)
    refine Write.ensures_marked marking (fun complete => absurd complete Bool.false_ne_true) fun _ =>
      typed.mono ?_
    rintro bytes ws' ⟨notes', noted', numbered, begins, reads⟩
    refine ⟨notes', noted', ?_, fun few copies st aligned => ?_⟩
    · rw [numbered, Use.note_of_new value tracked new]
    · have room : notes.numbered.length < 2 ^ 32 := by
        have count : (notes.numbered ++ [(h, use.shape)]).length ≤ 2 ^ 32 :=
          Nat.le_trans begins.length_le few
        rw [List.length_append, List.length_singleton] at count
        exact count
      obtain ⟨number, aligned₁⟩ := aligned.reserve (h, use.shape) room
      have slot : use.slot notes₁ = some st.slots.reserve.1 := by
        simp [Use.slot, waiting, notes₁, number]
      refine Read.runsIf_marked_newRef ?_
      rw [← slot]
      exact reads few copies _ (waiting ▸ aligned₁)

end Passes

/-! ## Instances -/

/-- Whether no field goes by the text of another one's tag. -/
def StructType.TagsApart (s : StructType) : Prop :=
  ∀ f ∈ s.fields, ∀ named ∈ s.fields, ∀ tag, f.tag = some tag → named.tag = none →
    named.name ≠ toString tag

/-- Tags are told apart, and so are names. -/
theorem StructType.TagsApart.nodup_keys {s : StructType} (apart : s.TagsApart)
    (names : (s.fields.map (·.name)).Nodup) (keys : DistinctKeys s.fields) :
    (s.fields.map Field.key).Nodup := by
  refine (List.Nodup.of_map _ names).map_on fun a ha b hb same => ?_
  cases tag : a.tag with
  | none =>
    cases tag' : b.tag with
    | none => exact keyedApart_of_distinct keys a ha b hb ⟨by rw [tag, tag'], same⟩
    | some t =>
      simp only [Field.key, tag, tag', Option.elim] at same
      exact absurd same (apart b hb a ha t tag' tag)
  | some t =>
    cases tag' : b.tag with
    | none =>
      simp only [Field.key, tag, tag', Option.elim] at same
      exact absurd same.symm (apart a ha b hb t tag tag')
    | some u => exact keyedApart_of_distinct keys a ha b hb ⟨by rw [tag, tag']; rfl, same⟩

namespace Instance

/-- A record of a type that the reader does not have, where the reader takes it, is read as a record with
one entry for each key of the fields that are not null, and with no other entry. That is one entry for
each such field, unless a field goes by the text of another one's tag. -/
theorem unknown_type_gathered {W R : Instance} {g : Graph} (accords : W.Accords R g) {h : Handle}
    {r : Record} (here : g.node h = .record r) {s : StructType}
    (registered : W.registry.struct? r.typeName = some s)
    (unknown : R.registry.structOf? s.identity = none)
    (countable : (W.environment.numbers g (.handle h)).length ≤ 2 ^ 32) {bytes : List UInt8}
    (written : W.serialize g (.handle h) = .ok bytes) {w : Value} {g' : Graph}
    (read : (R.deserialize bytes).1 = .ok (w, g')) :
    ∃ k r', w = .handle k ∧ g'.node k = .record r' ∧ r'.typeName = s.identity.text ∧
      r'.fields.names.Perm (r.sentKeys s.fields).dedup ∧
        (s.TagsApart → r'.fields.names.Perm (r.sentKeys s.fields)) := by
  rw [← W.numbers_setStrategy .interpreted] at countable
  have known : (W.setStrategy .interpreted).environment.structFor? r = some s :=
    Environment.structFor?_of_struct? registered
  obtain ⟨_, rfl, k, r', rfl, node, gathers⟩ := accords.of_deserialize rfl written read
    (Q := fun w st => st.graph.Gathered s.identity.text (r.sentKeys s.fields) w)
    fun reaches body ws run bytes => by
      have value : ((W.setStrategy .interpreted).environment.rootUse (.handle h)).value = .handle h := rfl
      obtain ⟨notes, noted, numbered, reads⟩ := Passes.gathersMarked reaches value here known unknown _ _
        _ (.initial _ g) List.not_mem_nil body ws run
      exact reads (numbered ▸ countable) [] _ (.initial _ _ g bytes)
  have entries : ∀ name, name ∈ r'.fields.names ↔ name ∈ r.sentKeys s.fields := fun name =>
    (gathers.names name).trans (or_iff_right List.not_mem_nil)
  have nodup := r'.fields.nodup_names
  refine ⟨k, r', rfl, node, gathers.typeName, ?_, fun apart => ?_⟩
  · refine (List.perm_ext_iff_of_nodup nodup (List.nodup_dedup _)).2 fun name => ?_
    rw [entries, List.mem_dedup]
  · have sendable := (accords.writer.describing (sane_of_serialize written)
      accords.compatible.1).sendable ⟨_, registered⟩
    have keys := apart.nodup_keys sendable.names sendable.keys
    exact (List.perm_ext_iff_of_nodup nodup (keys.sublist (List.filter_sublist.map _))).2 entries

/-- An instance in compatible mode that knows a struct with a field for anything, which has a tag. -/
def tagging : Instance :=
  [.setLimits .unlimited, .setCompatible true,
    .registerStruct (some 1) ⟨.ofNames "demo" "T", none, false,
      [{ FieldDecl.ofShape "a" .dynamic with nullable := true, tag := some 5 }]⟩].foldl perform fresh

/-- An instance without types that reads what it does not know. -/
def stranger : Instance :=
  [.setLimits .unlimited, .setCompatible true, .setRequireRegistration false].foldl perform fresh

/-- A record with a value in the field that has a tag. -/
def tagged : Record := (Record.ofType "demo.T").set "a" (.bool true)

theorem accords_tagging : tagging.Accords stranger ⟨#[.record tagged]⟩ := by
  have known : (tagging.registry.struct? "demo.T").any (fun s => s.Short ∧ s.Plain) = true := by
    decide +kernel
  have names : tagging.registry.structs.map (·.1) = ["demo.T"] := by decide +kernel
  have vacant : stranger.registry.structs = [] := List.isEmpty_iff.1 (by decide +kernel)
  have typeNames : (⟨#[.record tagged]⟩ : Graph).typeNames = ["demo.T"] := by decide +kernel
  obtain ⟨s, found, checks⟩ := (Option.any_eq_true _ _).1 known
  obtain ⟨short, plain⟩ := of_decide_eq_true checks
  have only {t : StructType} (h : tagging.registry.HasStruct t) : t = s := by
    obtain ⟨n, known⟩ := h
    exact (eq_of_names names found known).2
  have none {t : StructType} (h : stranger.registry.HasStruct t) : False := by
    obtain ⟨n, known⟩ := h
    obtain ⟨entry, here, -⟩ := Registry.struct?_eq_some_iff.1 known
    rw [vacant] at here
    cases here
  have sent {t : StructType} (h : tagging.environment.Sends ⟨#[.record tagged]⟩ t) : t = s :=
    h.eq_of_typeNames typeNames found
  exact
    { writer := ⟨_, rfl⟩
      reader := ⟨_, rfl⟩
      fresh := eq_empty_of_isEmpty (by decide +kernel)
      compatible := by decide +kernel
      references := by decide +kernel
      unlimited := by decide +kernel
      plain := fun t known => known.elim (fun h => only h ▸ plain) fun h => (none h).elim
      apart := by
        rintro t t' (h | h) (h' | h') same
        · rw [sent h, sent h']
        · exact (none h').elim
        · exact (none h).elim
        · exact (none h).elim
      brief := fun t known => known.elim (fun h => sent h ▸ short.brief) fun h => (none h).elim
      sized := by
        refine .of_nodes fun n member => ?_
        cases List.mem_singleton.1 member
        exact ⟨by decide, List.forall_mem_singleton.2 trivial⟩
      few := by
        rw [typeNames]
        decide }

/-- The field with a tag comes back under the text of its tag. -/
theorem unknown_type_gathered_tag : ∃ s bytes g' k r', tagging.Accords stranger ⟨#[.record tagged]⟩ ∧
    tagging.registry.struct? "demo.T" = some s ∧ stranger.registry.structOf? s.identity = none ∧
      s.TagsApart ∧ tagged.sentKeys s.fields = ["5"] ∧
        tagging.serialize ⟨#[.record tagged]⟩ (.handle ⟨0⟩) = .ok bytes ∧
          (stranger.deserialize bytes).1 = .ok (.handle k, g') ∧ g'.node k = .record r' ∧
            r'.typeName = "type#1" ∧ r'.fields.names.Perm (tagged.sentKeys s.fields) := by
  have known : (tagging.registry.struct? "demo.T").any (fun s =>
      (stranger.registry.structOf? s.identity).isNone ∧ (∀ f ∈ s.fields, f.tag.isSome = true) ∧
        tagged.sentKeys s.fields = ["5"] ∧ s.identity.text = "type#1") = true := by decide +kernel
  have countable : (tagging.environment.numbers ⟨#[.record tagged]⟩ (.handle ⟨0⟩)).length ≤ 2 ^ 32 := by
    decide +kernel
  have written : tagging.serialize ⟨#[.record tagged]⟩ (.handle ⟨0⟩) = .ok [212, 98, 6, 255, 28, 0,
      4, 80, 121, 220, 50, 43, 143, 44, 1, 1, 214, 0, 255, 1, 1] := by decide +kernel
  have read : (stranger.deserialize [212, 98, 6, 255, 28, 0,
      4, 80, 121, 220, 50, 43, 143, 44, 1, 1, 214, 0, 255, 1, 1]).1 =
        .ok (.handle ⟨0⟩, ⟨#[.record ((Record.ofType "type#1").set "5" (.bool true))]⟩) := by
    decide +kernel
  obtain ⟨s, found, checks⟩ := (Option.any_eq_true _ _).1 known
  obtain ⟨unknown, tags, keys, text⟩ := of_decide_eq_true checks
  have unknown := Option.isNone_iff_eq_none.1 unknown
  have apart : s.TagsApart := fun _ _ named member _ _ untagged => by
    have tag := tags named member
    rw [untagged] at tag
    cases tag
  obtain ⟨k, r', value, node, name, -, all⟩ :=
    unknown_type_gathered accords_tagging rfl found unknown countable written read
  cases value
  exact ⟨s, _, _, _, r', accords_tagging, found, unknown, apart, keys, written, read, node,
    name.trans text, all apart⟩

end Instance

end Graphwire
