import Graphwire.Proofs.Conveying

/-!
# Fields that a reader drops

A reader that has other fields than the writer reads every field that was sent, under its own field that
corresponds to it, or for nothing. Either way it gives the nodes in the field the numbers that the writer
gave them. So two handles that a reader finds at corresponding positions are the same just if the
writer's were, also where the node was written first within a field that was dropped.
-/

namespace Graphwire

set_option autoImplicit false

open Read (RunsIf Reproduces Fills)

/-! ## Fields that are kept -/

/-- The name of our field under which a field of a peer is kept, if it is kept. -/
def StructType.keptName (s : StructType) (f : Field) : Option String :=
  (s.counterpart? f).map (·.name)

namespace StructType

variable {s : StructType} {fs : List Field}

theorem keptName_eq (keys : DistinctKeys s.fields) {f own : Field} (member : own ∈ s.fields)
    (corresponds : f.Corresponds own) : s.keptName f = some own.name := by
  rw [keptName, (counterpart?_eq_some_iff keys).2 ⟨member, corresponds⟩]
  rfl

/-- No field of ours is filled twice, with what was sent or with a default. -/
theorem nodup_keptName (keys : DistinctKeys s.fields) (names : (s.fields.map (·.name)).Nodup)
    (theirs : DistinctKeys fs) :
    (fs.filterMap s.keptName ++ ((s.missing fs).filterMap (s.fields[·]?)).map (·.name)).Nodup := by
  have distinct := nodup_supplies keys names theirs
  simp only [supplies, List.map_append, List.map_filterMap, Option.map_map] at distinct
  rw [List.map_filterMap]
  exact distinct

theorem apart_keptName (keys : DistinctKeys s.fields) (names : (s.fields.map (·.name)).Nodup)
    (theirs : DistinctKeys fs) (r : Record) :
    fs.Pairwise fun f f' => ∀ slot ∈ ((s.keptName f).map (·, f.use r)).toList,
      slot.1 ∉ (s.keptName f').toList := by
  have distinct := (nodup_keptName keys names theirs).of_append_left
  refine (List.pairwise_filterMap.1 distinct).imp fun apart slot member again => ?_
  obtain ⟨name, kept, rfl⟩ := Option.map_eq_some_iff.1 (Option.mem_toList.1 member)
  exact apart name kept name (Option.mem_toList.1 again) rfl

end StructType

/-! ## What records gain -/

/-- Whether a field holds the copy of a node, if a node is used. -/
def Use.HeldBy (use : Use) (all : List Copy) (got : Option Value) : Prop :=
  ∀ h, use.value = .handle h → ∃ u, got = some u ∧ use.CopiedTo all u

/-- Whether a record gains copies in some fields, and changes in no others than touched ones. -/
structure Record.Gains (all : List Copy) (touched : List String) (slots : List (String × Use))
    (r r' : Record) : Prop where
  other : ∀ name, name ∉ touched → r'.get? name = r.get? name
  held : ∀ slot ∈ slots, slot.2.HeldBy all (r'.get? slot.1)

namespace Record.Gains

variable {all : List Copy} {touched touched' : List String} {slots slots' : List (String × Use)}
  {r r' r'' : Record}

theorem nil (touched : List String) (r : Record) : Gains all touched [] r r :=
  ⟨fun _ _ => rfl, fun _ member => absurd member List.not_mem_nil⟩

theorem append (first : Gains all touched slots r r') (second : Gains all touched' slots' r' r'')
    (apart : ∀ slot ∈ slots, slot.1 ∉ touched') :
    Gains all (touched ++ touched') (slots ++ slots') r r'' := by
  refine ⟨fun name absent => ?_, fun slot member => ?_⟩
  · rw [List.mem_append, not_or] at absent
    rw [second.other name absent.2, first.other name absent.1]
  · rcases List.mem_append.1 member with now | later
    · rw [second.other _ (apart slot now)]
      exact first.held slot now
    · exact second.held slot later

/-- A field that is set gains the copy. -/
theorem set {name : String} {use : Use} {v : Value} (copied : use.CopiedTo all v) :
    Gains all [name] [(name, use)] r (r.set name v) := by
  refine ⟨fun other absent => ?_, fun slot member h _ => ?_⟩
  · rw [get?_set, if_neg fun same => absent (List.mem_singleton.2 same)]
  · cases List.mem_singleton.1 member
    exact ⟨v, by rw [get?_set, if_pos rfl], copied⟩

/-- Nothing is gained where a null was read. -/
theorem of_null {name : String} {use : Use} {v : Value} (copied : use.CopiedTo all v)
    (null : v.isNull = true) (other : ∀ n, n ≠ name → r'.get? n = r.get? n) :
    Gains all [name] [(name, use)] r r' := by
  refine ⟨fun n absent => other n fun same => absent (List.mem_singleton.2 same),
    fun slot member h handle => ?_⟩
  cases List.mem_singleton.1 member
  obtain ⟨c, -, -, -, -, same⟩ := copied h handle
  rw [same] at null
  cases null

end Record.Gains

namespace Conveys

variable {W R : Environment} {g : Graph} {α β : Type}

/-- Fields that are written one after the other are read one after the other. -/
theorem each {write : α → Write (List UInt8)}
    {number : α → List (Handle × Shape) → List (Handle × Shape)} {one : β → Handle → Read Unit}
    (touched : α → List String) (slots : α → List (String × Use)) {S : α → β → Prop} {xs : List α}
    {ys : List β} (related : List.Forall₂ S xs ys)
    (step : ∀ x y, x ∈ xs → S x y → Conveys W g (write x) (number x) fun notes notes' bytes =>
      Fills W R g notes notes' (one y) bytes fun all => Record.Gains all (touched x) (slots x))
    (apart : xs.Pairwise fun x y => ∀ slot ∈ slots x, slot.1 ∉ touched y) :
    Conveys W g (Write.concat write xs)
      (fun numbered => xs.foldl (fun numbered x => number x numbered) numbered)
      fun notes notes' bytes => Fills W R g notes notes' (fun h => Read.each (one · h) ys) bytes
        fun all => Record.Gains all (xs.flatMap touched) (xs.flatMap slots) := by
  induction related with
  | nil => exact .pure (fun _ => rfl) fun _ => .nil fun _ _ => .nil _ _
  | @cons x y xs ys first _ ih =>
    obtain ⟨apartHere, apart⟩ := List.pairwise_cons.1 apart
    have others := ih (fun x y member => step x y (List.mem_cons_of_mem _ member)) apart
    intro notes ws noted
    refine (step x y List.mem_cons_self first notes ws noted).bind ?_
    rintro front ws₁ ⟨notes₁, noted₁, same₁, begins₁, here⟩
    refine (others notes₁ ws₁ noted₁).bind ?_
    rintro back ws₂ ⟨notes₂, noted₂, same₂, begins₂, there⟩
    refine .pure ⟨notes₂, noted₂, by rw [same₂, same₁]; rfl, begins₁.trans begins₂, ?_⟩
    refine here.bind begins₂ there fun all r r₁ r₂ first second => first.append second ?_
    intro slot member touches
    obtain ⟨y, later, touches⟩ := List.mem_flatMap.1 touches
    exact apartHere y later slot member touches

end Conveys

namespace Read.Fills

variable {W R : Environment} {g : Graph} {notes : Notes}

/-- Fields that are left out get their defaults. -/
theorem eachMissing (owns : List Field) :
    Fills W R g notes notes (fun h => Read.each (fillMissing h) owns) [] fun all =>
      Record.Gains all (owns.map (·.name)) [] := by
  induction owns with
  | nil => exact .nil fun _ _ => .nil _ _
  | cons own owns ih =>
    refine (missing own).bind (List.prefix_refl _) ih fun all r r₁ r₂ first second => ?_
    have first : Record.Gains all [own.name] [] r r₁ :=
      ⟨fun name absent => first name fun same => absent (List.mem_singleton.2 same),
        fun _ member => absurd member List.not_mem_nil⟩
    exact first.append second fun _ member => absurd member List.not_mem_nil

variable {last : Notes} {bytes : List UInt8} {use : Use} {env : Environment} {inner : ReadPayload}
  {h : Handle}

/-- What is read for a field of ours is kept there. -/
theorem ownField {s : StructType} {f own : Field} (kept : s.keptName f = some own.name)
    (hv : Reproduces W R g notes none last
      (marked env inner own.refMode (own.hasTypeInfo s.isCompatible) own.shape) bytes use.CopiedTo) :
    Fills W R g notes last (fun h => field env inner s h own) bytes fun all =>
      Record.Gains all (s.keptName f).toList ((s.keptName f).map (·, use)).toList := by
  rw [kept]
  refine .ofValue (fun v h => if v.isNull then noteNull h own.name else setField h own.name v) hv
    fun v => ?_
  split
  · rename_i empty
    exact (null own.name).mono fun all r r' same copied =>
      .of_null copied empty fun _ _ => by rw [same]
  · exact (set own.name v).mono fun all r r' same copied => same ▸ .set copied

/-- What is read for a field of a peer is kept under our field that corresponds to it, or dropped. -/
theorem peerField {p : PeerStruct} {s : StructType} {f : Field} (own : p.own = some s)
    (hv : Reproduces W R g notes none last
      (marked env inner (s.peerField f).refMode (s.peerField f).typed (s.peerField f).shape) bytes
      use.CopiedTo) :
    Fills W R g notes last (fun h => Read.peerField env inner p h (s.peerField f)) bytes fun all =>
      Record.Gains all (s.keptName f).toList ((s.keptName f).map (·, use)).toList := by
  refine .ofValue (fun v h => keepField p h (s.peerField f) v) hv fun v => ?_
  have target : ((s.peerField f).own.bind fun i => p.own.bind fun s => s.fields[i]?) =
      s.counterpart? f := by
    rw [own]
    rfl
  unfold keepField StructType.keptName
  rw [target, own]
  cases s.counterpart? f with
  | none => exact dropped.mono fun all r r' same _ => same ▸ .nil _ _
  | some own' =>
    dsimp only
    split
    · rename_i empty
      have noted : Fills W R g last last (fun h => noteNull h own'.name) [] fun _ r r' => r' = r :=
        null own'.name
      split
      · exact noted.mono fun all r r' same copied =>
          .of_null copied empty fun _ _ => by rw [same]
      · refine noted.bind (List.prefix_refl _) (missing own') fun all r r₁ r₂ same other copied => ?_
        exact .of_null copied empty fun name ne => (other name ne).trans (by rw [same])
    · exact (set own'.name v).mono fun all r r' same copied => same ▸ .set copied

/-- What is read for a field of a struct that we do not have is kept under its own name. -/
theorem unknownField {p : PeerStruct} {f : PeerField} (own : p.own = none) (noField : f.own = none)
    {Q : List Copy → Value → Prop}
    (hv : Reproduces W R g notes none last (marked env inner f.refMode f.typed f.shape) bytes Q) :
    Fills W R g notes last (fun h => Read.peerField env inner p h f) bytes fun all =>
      Record.Gains all [f.name] [] := by
  refine .ofValue (fun v h => keepField p h f v) hv fun v => ?_
  unfold keepField
  rw [own, noField]
  dsimp only [Option.bind_none]
  split
  · exact .nil fun _ _ _ => .nil _ _
  · refine (set f.name v).mono fun all r r' same _ => ⟨fun name absent => ?_,
      fun _ member => absurd member List.not_mem_nil⟩
    rw [same, Record.get?_set, if_neg fun same => absent (List.mem_singleton.2 same)]

end Read.Fills

/-! ## Records -/

/-- Whether a record holds copies of what another one holds, under the fields of a reader that
correspond to the fields of the struct that it was written as. -/
def Record.Retains (R : Registry) (s : StructType) (all : List Copy) (r r' : Record) : Prop :=
  ∀ ours, R.structOf? s.identity = some ours → ∀ f ∈ s.fields, ∀ own ∈ ours.fields,
    f.Corresponds own → (f.use r).HeldBy all (r'.get? own.name)

/-- A record that gained all that is kept retains it. -/
theorem Record.Gains.retains {R : Registry} {s ours : StructType} {all : List Copy}
    {touched : List String} {r empty r' : Record} (known : R.structOf? s.identity = some ours)
    (keys : DistinctKeys ours.fields)
    (gains : Gains all touched (s.fields.flatMap fun f => ((ours.keptName f).map (·, f.use r)).toList)
      empty r') : r.Retains R s all r' := by
  intro ours' known' f sent own kept corresponds
  cases known.symm.trans known'
  refine gains.held (own.name, f.use r) (List.mem_flatMap.2 ⟨f, sent, ?_⟩)
  rw [StructType.keptName_eq keys kept corresponds]
  exact List.mem_singleton_self _

/-- What a reader makes of a struct that it does not have. -/
theorem Registry.peerOf_unknown {R : Registry} {s : StructType} {header : Int}
    (unknown : R.structOf? (s.told header).identity = none) :
    (R.peerOf s header).own = none ∧ (R.peerOf s header).missing = [] ∧
      (R.peerOf s header).fields = s.fields.map fun f => .ofEntry none (.ofField f) none := by
  have told : (s.told header).fields = s.fields.map FieldEntry.ofField := rfl
  simp only [peerOf, PeerStruct.ofDefinition, unknown, told, List.map_map, true_and]
  rw [List.zipWith_map_left, List.zipWith_map_right, List.zipWith_self]
  rfl

theorem StructType.identity_told (s : StructType) (header : Int) :
    (s.told header).identity = s.identity := by
  unfold told definitionOf TypeDefinition.ofFields identity
  cases s.id <;> rfl

/-- A record of a struct that the reader does not have is named by its identity. -/
theorem Registry.typeName_peerOf_unknown {R : Registry} {s : StructType} {header : Int}
    (unknown : R.structOf? (s.told header).identity = none) :
    (R.peerOf s header).typeName = s.identity.text := by
  rw [← s.identity_told header]
  simp only [peerOf, PeerStruct.ofDefinition, unknown]
  rfl

namespace Environment

variable {W R : Environment} {g g' : Graph} {all : List Copy} {r : Record} {s : StructType}

theorem uses_record (written : W.structFor? r = some s) (shape : Shape) :
    W.uses shape (.record r) = s.fields.map fun f => (.field f.name, f.use r) := by
  simp only [uses, written, Option.elim_some]

/-- A record that retains what a record holds is a faithful copy. -/
theorem faithful_record {use : Use} {h : Handle} (here : g.node h = .record r)
    (written : W.structFor? r = some s) (names : (s.fields.map (·.name)).Nodup) {r' : Record}
    (retains : r.Retains R.registry s all r') {place : Handle} (there : g'.node place = .record r') :
    Copy.Faithful W R g g' all ⟨use.tracked, h, use.shape, place⟩ := by
  intro step step' part member counterpart k value
  dsimp only at member counterpart ⊢
  rw [here] at member counterpart
  rw [uses_record written] at member
  obtain ⟨f, sent, same⟩ := List.mem_map.1 member
  cases same
  obtain ⟨s', ours, f', own, written', known, sent', named, kept, corresponds, rfl⟩ :=
    counterpart.eq_field
  cases written.symm.trans written'
  cases List.inj_on_of_nodup_map names sent' sent named
  rw [there]
  exact retains ours known f sent own kept corresponds k value

end Environment

/-- What is written of a field can be read where the reader is told of the field. -/
theorem Environment.Reaches.meets_peerField {W R : Environment} {g : Graph} (reaches : W.Reaches R g)
    {s ours : StructType} (evolves : s.Evolves) (known : R.registry.HasStruct ours) {f : Field}
    (member : f ∈ s.fields) :
    (W.fieldPlace f).Meets ⟨(ours.peerField f).typed, (ours.peerField f).shape⟩ := by
  obtain ⟨lookup, registered, described⟩ := evolves.described.fields
  have our := reaches.reader.evolves known
  obtain ⟨lookup', registered', described'⟩ := our.described.fields
  exact StructType.meets_peerField reaches.writer.compatible registered (described f member) our.keys
    registered' described' (StructType.readable_of_whole our.keys (evolves.plain f member) our.plain)

/-! ### Reading records -/

/-- Our fields that a peer does not have. -/
def PeerStruct.lacking (p : PeerStruct) : List Field :=
  p.own.elim [] fun s => p.missing.filterMap fun i => s.fields[i]?

/-- There is nothing that it lacks of a struct that we do not have. -/
theorem PeerStruct.lacking_eq_nil {p : PeerStruct} (own : p.own = none) : p.lacking = [] := by
  rw [lacking, own, Option.elim_none]

namespace Read

/-- A record of a struct that we do not have, or have with another layout, is read by the fields of the
peer's struct. -/
theorem peerRecord_eq_reconciled {p : PeerStruct} (differs : p.sameLayout = false ∨ p.own = none)
    (env : Environment) (inner : ReadPayload) (slot : Option Nat) :
    peerRecord env inner p slot = reconciled env inner p slot := by
  unfold peerRecord
  rcases differs with differs | unknown
  · rw [differs]
  · rw [unknown]
    cases p.sameLayout <;> rfl

theorem runsIf_reconciled {sure : Prop} {st : ReadState} {env : Environment} {inner : ReadPayload}
    {p : PeerStruct} {slot : Option Nat} {bytes : List UInt8} {Q : Value → ReadState → Prop}
    (h : RunsIf sure (do
        each (peerField env inner p ⟨st.graph.size⟩) p.fields
        each (fillMissing ⟨st.graph.size⟩) p.lacking)
      (st.opened (.record (.ofType p.typeName)) slot) bytes fun _ => Q (.handle ⟨st.graph.size⟩)) :
    RunsIf sure (reconciled env inner p slot) st bytes Q := by
  have run := h.then (f := fun _ => pure (Value.handle ⟨st.graph.size⟩)) fun _ _ held => .pure held
  unfold reconciled newRecord
  simp only [bind_assoc, pure_bind] at run ⊢
  exact .opened run

namespace Fills

variable {W R : Environment} {g : Graph} {before last : Notes} {bytes : List UInt8} {use : Use}
  {h : Handle} (value : use.value = .handle h) {r : Record} (here : g.node h = .record r)
  {s : StructType} (written : W.structFor? r = some s) (names : (s.fields.map (·.name)).Nodup)
  {inner : ReadPayload}

include value here written names

/-- A record is read field by field, as one of ours. -/
theorem record {ours : StructType} (strategy : R.config.strategy = .interpreted)
    (version : -2 ^ 31 ≤ ours.version ∧ ours.version < 2 ^ 31)
    (fills : Fills W R g before last (fun h => each (field R inner ours h) ours.fields) bytes
      fun all _ r' => r.Retains R.registry s all r') :
    Reproduces W R g before use.pending last (Read.record R inner ours false (use.slot before)) bytes
      use.CopiedTo :=
  fun few _ _ aligned => runsIf_record strategy version (fills.opened value
    (fun _ _ _ _ retains there => Environment.faithful_record here written names retains there) few
      aligned)

/-- A record is read by the fields of a peer's struct, and what it lacks is filled in. -/
theorem reconciled {p : PeerStruct} (fills : Fills W R g before last (fun h => do
        each (Read.peerField R inner p h) p.fields
        each (fillMissing h) p.lacking) bytes fun all _ r' => r.Retains R.registry s all r') :
    Reproduces W R g before use.pending last (Read.reconciled R inner p (use.slot before)) bytes
      use.CopiedTo :=
  fun few _ _ aligned => runsIf_reconciled (fills.opened value
    (fun _ _ _ _ retains there => Environment.faithful_record here written names retains there) few
      aligned)

end Fills

end Read

/-! ### Conveying records -/

/-- Goes on to the nodes that get a number with the fields of a record. -/
abbrev Environment.noteFields (env : Environment) (g : Graph) (levels : Nat) (s : StructType)
    (r : Record) (numbered : List (Handle × Shape)) : List (Handle × Shape) :=
  s.fields.foldl (fun numbered f => (f.use r).note (env.enter g levels (f.use r)) numbered) numbered

namespace Passes

variable {W R : Environment} {g : Graph} {levels : Nat} {write : WritePayload} {read : ReadPayload}
  (reaches : W.Reaches R g) (passes : Passes W R g levels write read) {s : StructType}
  (evolves : s.Evolves) {r : Record} (short : ∀ part ∈ (Node.record r).contents, part.Short)

include reaches passes evolves short

/-- A field is conveyed to a place where it can be read. -/
theorem field {f : Field} {q : Place} (met : (W.fieldPlace f).Meets q) :
    Conveys W g (Write.field W g write s r f) ((f.use r).note (W.enter g levels (f.use r)))
      fun notes notes' bytes => Reproduces W R g notes none notes'
        (Read.marked R read f.refMode q.typed q.shape) bytes (f.use r).CopiedTo := by
  unfold Write.field
  dsimp only
  split
  · exact .throw _
  · rw [evolves.isCompatible, ← reaches.writer.compatible]
    exact passes.marked reaches (f.use r) (Record.short_value short f.name) met f.nullable

/-- A field of a struct that the reader does not have is conveyed to its entry. -/
theorem entryField {f : Field} (member : f ∈ s.fields) :
    Conveys W g (Write.field W g write s r f) ((f.use r).note (W.enter g levels (f.use r)))
      fun notes notes' bytes => Reproduces W R g notes none notes'
        (Read.marked R read (PeerField.ofEntry none (.ofField f) none).refMode
          (PeerField.ofEntry none (.ofField f) none).typed
          (PeerField.ofEntry none (.ofField f) none).shape) bytes (f.use r).CopiedTo := by
  obtain ⟨lookup, registered, described⟩ := evolves.described.fields
  rw [(described f member).refMode_entry]
  exact passes.field reaches evolves short
    ((described f member).meets_entry registered reaches.writer.compatible (evolves.plain f member))

/-- The fields of a struct that the reader does not have are read by their entries. -/
theorem unknownFields {p : PeerStruct} (own : p.own = none) :
    Conveys W g (Write.concat (Write.field W g write s r) s.fields) (W.noteFields g levels s r)
      fun notes notes' bytes => Fills W R g notes notes' (fun h =>
        Read.each (Read.peerField R read p h) (s.fields.map fun f => .ofEntry none (.ofField f) none))
        bytes fun _ _ _ => True := by
  have related : List.Forall₂ (fun f p => p = PeerField.ofEntry none (.ofField f) none) s.fields
      (s.fields.map fun f => .ofEntry none (.ofField f) none) :=
    List.forall₂_map_right_iff.2 (List.forall₂_same.2 fun _ _ => rfl)
  refine (Conveys.each (fun f => [(PeerField.ofEntry none (.ofField f) none).name]) (fun _ => [])
    related (fun f q member same => ?_) ?_).mono fun _ _ _ fills => fills.mono fun _ _ _ _ => trivial
  · subst same
    exact (passes.entryField reaches evolves short member).mono fun _ _ _ reads =>
      Read.Fills.unknownField own rfl reads
  · exact List.pairwise_of_forall fun _ _ _ none => absurd none List.not_mem_nil

variable {ours : StructType} (known : R.registry.HasStruct ours)

include known

/-- The fields of a struct are read by what the reader makes of them, and kept under its own. -/
theorem peerFields {p : PeerStruct} (own : p.own = some ours) :
    Conveys W g (Write.concat (Write.field W g write s r) s.fields) (W.noteFields g levels s r)
      fun notes notes' bytes => Fills W R g notes notes'
        (fun h => Read.each (Read.peerField R read p h) (s.fields.map ours.peerField)) bytes fun all =>
          Record.Gains all (s.fields.flatMap fun f => (ours.keptName f).toList)
            (s.fields.flatMap fun f => ((ours.keptName f).map (·, f.use r)).toList) := by
  obtain ⟨lookup, -, described⟩ := evolves.described.fields
  have our := reaches.reader.evolves known
  have related : List.Forall₂ (fun f p => p = ours.peerField f) s.fields
      (s.fields.map ours.peerField) :=
    List.forall₂_map_right_iff.2 (List.forall₂_same.2 fun _ _ => rfl)
  refine Conveys.each _ _ related (fun f q member same => ?_)
    (StructType.apart_keptName our.keys our.names evolves.keys r)
  subst same
  refine (passes.field reaches evolves short
    (reaches.meets_peerField evolves known member)).mono fun _ _ _ reads => ?_
  rw [← StructType.refMode_peerField (s := ours) (described f member)] at reads
  exact Read.Fills.peerField own reads

/-- The fields of a struct that is told like ours are read as our fields. -/
theorem ownFields {header : Int} (same : s.told header = ours.told header) :
    Conveys W g (Write.concat (Write.field W g write s r) s.fields) (W.noteFields g levels s r)
      fun notes notes' bytes => Fills W R g notes notes'
        (fun h => Read.each (Read.field R read ours h) ours.fields) bytes fun all =>
          Record.Gains all (s.fields.flatMap fun f => (ours.keptName f).toList)
            (s.fields.flatMap fun f => ((ours.keptName f).map (·, f.use r)).toList) := by
  obtain ⟨lookup, -, described⟩ := evolves.described.fields
  have our := reaches.reader.evolves known
  obtain ⟨lookup', registered', described'⟩ := our.described.fields
  refine Conveys.each _ _ (StructType.told_fields same) (fun f own member entry => ?_)
    (StructType.apart_keptName our.keys our.names evolves.keys r)
  obtain ⟨declared, entry⟩ := entry
  obtain ⟨counterpart, typed, shape⟩ :=
    StructType.peerField_of_entry registered' (described' own declared) our.keys declared entry
  have mode := (Field.flags_of_entry (described f member) (described' own declared) entry).2
  have met := reaches.meets_peerField evolves known member
  rw [typed, shape, ← our.isCompatible] at met
  refine (passes.field reaches evolves short met).mono fun _ _ _ reads => ?_
  rw [← mode] at reads
  refine Read.Fills.ownField ?_ reads
  rw [StructType.keptName, counterpart, Option.map_some]

omit known

variable {use : Use} {h : Handle} (value : use.value = .handle h) (here : g.node h = .record r)
  (written : W.structFor? r = some s)

include value here written

omit reaches passes evolves short in
/-- A record is conveyed if its fields are. -/
theorem record_of_fields (strategy : W.config.strategy = .interpreted)
    {reads : Notes → Notes → List UInt8 → Prop}
    (fields : Conveys W g (Write.concat (Write.field W g write s r) s.fields)
      (W.noteFields g levels s r) reads) :
    Conveys W g (Write.record W g write s false r) (W.enter g (levels + 1) use) reads := by
  intro notes ws noted
  refine Write.ensures_record strategy ((fields notes ws noted).mono ?_)
  rintro bytes ws' ⟨notes', noted', numbered, begins, read⟩
  refine ⟨notes', noted', ?_, begins, read⟩
  rw [numbered, Environment.enter_handle value, here, Environment.uses_record written, List.map_map,
    List.foldl_map]
  rfl

/-- A record of a struct that the reader does not have is conveyed. -/
theorem unknownRecord {p : PeerStruct} (own : p.own = none)
    (fields : p.fields = s.fields.map fun f => .ofEntry none (.ofField f) none)
    (unknown : R.registry.structOf? s.identity = none) :
    Conveys W g (Write.record W g write s false r) (W.enter g (levels + 1) use)
      fun notes notes' bytes => Reproduces W R g notes use.pending notes'
        (Read.reconciled R read p (use.slot notes)) bytes use.CopiedTo := by
  refine (record_of_fields value here written reaches.writer.strategy
    (passes.unknownFields reaches evolves short own)).mono fun notes notes' bytes fills => ?_
  refine Read.Fills.reconciled value here written evolves.names ?_
  rw [fields, PeerStruct.lacking_eq_nil own, ← List.append_nil bytes]
  refine fills.bind (List.prefix_refl _) (Read.Fills.eachMissing []) fun all _ _ _ _ _ ours known => ?_
  cases unknown.symm.trans known

variable (known : R.registry.HasStruct ours) (found : R.registry.structOf? s.identity = some ours)

include known found

/-- A record is conveyed to a reader of its struct, with the defaults of the fields that it lacks. -/
theorem reconciledRecord {p : PeerStruct} (own : p.own = some ours)
    (fields : p.fields = s.fields.map ours.peerField) (missing : p.missing = ours.missing s.fields) :
    Conveys W g (Write.record W g write s false r) (W.enter g (levels + 1) use)
      fun notes notes' bytes => Reproduces W R g notes use.pending notes'
        (Read.reconciled R read p (use.slot notes)) bytes use.CopiedTo := by
  have our := reaches.reader.evolves known
  refine (record_of_fields value here written reaches.writer.strategy
    (passes.peerFields reaches evolves short known own)).mono fun notes notes' bytes fills => ?_
  refine Read.Fills.reconciled value here written evolves.names ?_
  rw [fields, show p.lacking = (ours.missing s.fields).filterMap (ours.fields[·]?) by
    rw [PeerStruct.lacking, own, missing, Option.elim_some], ← List.append_nil bytes]
  refine fills.bind (List.prefix_refl _) (Read.Fills.eachMissing _)
    fun all _ _ _ kept filled => ?_
  have distinct := StructType.nodup_keptName our.keys our.names evolves.keys
  have gains := kept.append filled fun slot member again => ?_
  · rw [List.append_nil] at gains
    exact gains.retains found our.keys
  · obtain ⟨f, sent, member⟩ := List.mem_flatMap.1 member
    obtain ⟨name, kept, rfl⟩ := Option.map_eq_some_iff.1 (Option.mem_toList.1 member)
    exact (List.nodup_append.1 distinct).2.2 name (List.mem_filterMap.2 ⟨f, sent, kept⟩) name again rfl

/-- A record with our layout is conveyed to a reader of our struct. -/
theorem sameRecord {header : Int} (same : s.told header = ours.told header) :
    Conveys W g (Write.record W g write s false r) (W.enter g (levels + 1) use)
      fun notes notes' bytes => Reproduces W R g notes use.pending notes'
        (Read.record R read ours false (use.slot notes)) bytes use.CopiedTo := by
  have our := reaches.reader.evolves known
  obtain ⟨_, _, _, built⟩ := our.built
  refine (record_of_fields value here written reaches.writer.strategy
    (passes.ownFields reaches evolves short known same)).mono fun notes notes' bytes fills => ?_
  exact Read.Fills.record value here written evolves.names reaches.reader.strategy built.version
    (fills.mono fun all _ _ gains => gains.retains found our.keys)

omit known found evolves

/-- A record is conveyed to a reader that was told of its struct. -/
theorem peerRecord :
    Conveys W g (Write.record W g write s false r) (W.enter g (levels + 1) use)
      fun notes notes' bytes => s.Legible → Reproduces W R g notes use.pending notes'
        (Read.peerRecord R read (R.registry.peer s) (use.slot notes)) bytes use.CopiedTo := by
  have sends : W.Sends g s := ⟨h, r, here, written⟩
  obtain ⟨evolves, -⟩ := reaches.writer.evolves_of_structFor? written
  obtain ⟨header, after, defined⟩ := reaches.distinguished.defined s (.inl sends)
  rw [defined.peer_eq]
  cases found : R.registry.structOf? s.identity with
  | none =>
    obtain ⟨own, -, fields⟩ := Registry.peerOf_unknown ((s.identity_told header).symm ▸ found)
    simp only [Read.peerRecord_eq_reconciled (.inr own)]
    exact (passes.unknownRecord reaches evolves short value here written own fields found).mono
      fun _ _ _ reads _ => reads
  | some ours =>
    have known := Registry.hasStruct_of_structOf? found
    have told : R.registry.structOf? (s.told header).identity = some ours :=
      (s.identity_told header).symm ▸ found
    have own := Registry.own_peerOf told
    unfold Read.peerRecord
    rw [own, Registry.sameLayout_peerOf told]
    by_cases same : ours.header? = some header ∧ s.Legible
    · obtain ⟨header', after', defined'⟩ := reaches.distinguished.defined ours (.inr known)
      cases Option.some.inj (defined'.front.symm.trans same.1)
      have alike := same.2.told_eq defined' (reaches.distinguished.apart s ours (.inl sends)
        (.inr known) (defined.front.trans same.1.symm))
      rw [decide_eq_true same.1]
      exact (passes.sameRecord reaches evolves short known value here written found alike).mono
        fun _ _ _ reads _ => reads
    · obtain ⟨fields, missing⟩ :=
        Registry.fields_peerOf told (reaches.reader.evolves known).keys evolves.keys
      refine (passes.reconciledRecord reaches evolves short known value here written found own fields
        missing).mono fun _ _ _ reads legible => ?_
      rw [decide_eq_false fun front => same ⟨front, legible⟩]
      exact reads

end Passes

end Graphwire
