import Graphwire.Proofs.DroppedFields
import Mathlib.Algebra.Order.BigOperators.Group.List
import Mathlib.Algebra.Order.Group.Nat

/-!
# Numbers that stay stable

A reader with other fields than the writer takes a whole value level by level. Every copy with a number is
that of one node, and stands where the reader's own path leads that corresponds to a path of the writer.
So two positions that are tracked hold one handle with the reader just if they do with the writer.
-/

namespace Graphwire

set_option autoImplicit false

open Read (RunsIf Reproduces)

/-! ## Levels -/

/-- A reader may have no level left. -/
theorem Read.Reproduces.descend {W R : Environment} {g : Graph} {before last : Notes}
    {pending : Option (Handle × Shape)} {bytes : List UInt8} {P : List Copy → Value → Prop}
    {read : Option ReadPayload} {r : ReadPayload} (only : ∀ r', read = some r' → r' = r)
    {m : ReadPayload → Read Value} (h : Reproduces W R g before pending last (m r) bytes P) :
    Reproduces W R g before pending last (Read.check (R.descend read) >>= m) bytes P :=
  fun few copies st aligned => .check nofun fun r' same => by
    cases only r' (Environment.inner_of_descend same)
    exact h few copies st aligned

namespace Passes

variable {W R : Environment} {g : Graph} {levels : Nat} {write : Option WritePayload}
  {read : Option ReadPayload} (reaches : W.Reaches R g) {use : Use} (short : use.value.Short)
  {typed : Bool} {q : Place} (met : (Place.mk typed use.shape).Meets q)

include short

theorem layer_scalar {t : TypeId} (unlimited : R.config.limits = .unlimited)
    (noContainer : t.isContainer = false) :
    Conveys W g (Write.layer W g write (.builtin t) use.shape use.value) (W.enter g levels use)
      fun notes notes' bytes => Reproduces W R g notes use.pending notes'
        (Read.layer R read (.builtin t) q.shape (use.slot notes)) bytes use.CopiedTo := by
  simp only [Write.layer, Read.layer, noContainer, Bool.false_eq_true, if_false]
  intro notes ws noted
  refine .lift fun bytes written => ?_
  have scalar : use.value.handle? = none := by
    cases handle : use.value.handle? with
    | none => rfl
    | some h =>
      rw [Value.eq_handle_of_handle? handle] at written
      exact absurd written Graph.encodeScalar_handle_ne_ok
  have admitted : use.value.Admitted R.config.limits := unlimited ▸ Value.admitted_unlimited _
  refine ⟨notes, noted, (W.enter_of_scalar g scalar ..).symm, List.prefix_refl _, ?_⟩
  rw [Use.pending_of_scalar scalar]
  exact .takes (Read.takes_scalar written short admitted) fun all => Use.copiedTo_of_scalar scalar all _

theorem layer_enum {typeName : String} {members : Option Nat} :
    Conveys W g (Write.layer W g write (.enum typeName members) use.shape use.value)
      (W.enter g levels use) fun notes notes' bytes => ∀ typeName' members',
        Reproduces W R g notes use.pending notes'
          (Read.layer R read (.enum typeName' members') q.shape (use.slot notes)) bytes
            use.CopiedTo := by
  intro notes ws noted
  simp only [Write.layer, Read.layer]
  split
  · rename_i ordinal isEnum
    have scalar : use.value.handle? = none := by
      rw [isEnum]
      rfl
    have reads (typeName' : String) (members' : Option Nat) : Reproduces W R g notes none notes
        (do
          let ordinal ← Read.decode Decode.varuint32
          if members'.all (ordinal < ·) then return .enum typeName' ordinal
          else throw (.notAMember ordinal typeName')) (Encode.varuint32 ordinal)
        use.CopiedTo := by
      rw [isEnum] at short
      rw [← List.append_nil (Encode.varuint32 _)]
      refine .after (.decode (Decode.yields_varuint32 short.2)) ?_
      split
      · exact .pure fun all => Use.copiedTo_of_scalar scalar all _
      · exact .throw _
    split
    · exact .pure ⟨notes, noted, (W.enter_of_scalar g scalar ..).symm, List.prefix_refl _,
        fun typeName' members' => (Use.pending_of_scalar scalar).symm ▸ reads typeName' members'⟩
    · exact .throw _
  · exact .error _

omit short

/-- Whether the payloads of the next level, if there is one, are conveyed to the reader's next level, if
there is one. -/
def Deeper (W R : Environment) (g : Graph) (levels : Nat) (write : Option WritePayload)
    (read : Option ReadPayload) : Prop :=
  ∀ w, write = some w → ∃ k r, levels = k + 1 ∧ Passes W R g k w r ∧ ∀ r', read = some r' → r' = r

variable (deeper : Deeper W R g levels write read)

include reaches deeper met

theorem layer_container {t : TypeId} (container : t.isContainer = true) :
    Conveys W g (Write.layer W g write (.builtin t) use.shape use.value) (W.enter g levels use)
      fun notes notes' bytes => Reproduces W R g notes use.pending notes'
        (Read.layer R read (.builtin t) q.shape (use.slot notes)) bytes use.CopiedTo := by
  intro notes ws noted
  simp only [Write.layer, Read.layer, container, if_true]
  refine Write.ensures_container (fun w elements known found kind => ?_)
    (fun w elements known found kind => ?_) (fun w pairs known found kind => ?_)
  all_goals
    obtain ⟨k, r, rfl, passes, only⟩ := deeper w known
    obtain ⟨h, handle, here⟩ := Option.map_eq_some_iff.1 found
    have value := Value.eq_handle_of_handle? handle
    subst kind
  · refine (passes.items reaches value met (.inl rfl) here notes ws noted).mono ?_
    rintro bytes ws' ⟨notes', noted', numbered, begins, reads⟩
    exact ⟨notes', noted', numbered, begins, .descend only reads⟩
  · refine (passes.items reaches value met (.inr rfl) here notes ws noted).mono ?_
    rintro bytes ws' ⟨notes', noted', numbered, begins, reads⟩
    exact ⟨notes', noted', numbered, begins, .descend only reads⟩
  · refine (passes.entries reaches value met here notes ws noted).mono ?_
    rintro bytes ws' ⟨notes', noted', numbered, begins, reads⟩
    exact ⟨notes', noted', numbered, begins, .descend only reads⟩

omit met

theorem layer_record {r : Record} {s : StructType} (isRecord : g.asRecord? use.value = some r)
    (written : W.structFor? r = some s) :
    Conveys W g (Write.layer W g write (.struct s false) use.shape use.value) (W.enter g levels use)
      fun notes notes' bytes => s.Legible → Reproduces W R g notes use.pending notes'
        (Read.layer R read (.peer (R.registry.peer s)) q.shape (use.slot notes)) bytes
          use.CopiedTo := by
  intro notes ws noted
  simp only [Write.layer, Read.layer, isRecord]
  split
  · exact .throw _
  · refine Write.ensures_descend fun w known => ?_
    obtain ⟨k, r', rfl, passes, only⟩ := deeper w known
    have found := Graph.nodeOf?_of_asRecord? isRecord
    obtain ⟨h, handle, here⟩ := Option.map_eq_some_iff.1 found
    refine (passes.peerRecord reaches (reaches.sized.of_nodeOf? found).2
      (Value.eq_handle_of_handle? handle) here written notes ws noted).mono ?_
    rintro bytes ws' ⟨notes', noted', numbered, begins, reads⟩
    exact ⟨notes', noted', numbered, begins, fun legible => .descend only (reads legible)⟩

/-- Payloads are conveyed if those of the next level are. -/
theorem layer : Passes W R g levels (Write.layer W g write) (Read.layer R read) := by
  intro use typed q wire short met sentAs
  cases sentAs with
  | builtin t =>
    have conveyed : Conveys W g (Write.layer W g write (.builtin t) use.shape use.value)
        (W.enter g levels use) fun notes notes' bytes => Reproduces W R g notes use.pending notes'
          (Read.layer R read (.builtin t) q.shape (use.slot notes)) bytes use.CopiedTo := by
      cases container : t.isContainer with
      | true => exact layer_container reaches met deeper container
      | false => exact layer_scalar short reaches.unlimited container
    exact conveyed.mono fun _ _ _ reads wire' faces => by
      cases faces
      exact reads
  | record isRecord written =>
    exact (layer_record reaches deeper isRecord written).mono fun _ _ _ reads wire' faces => by
      cases faces with
      | struct legible => exact reads legible
  | «enum» typeName members =>
    exact (layer_enum short).mono fun _ _ _ reads wire' faces => by
      cases faces
      exact reads _ _

omit deeper

/-- Payloads are conveyed, however many levels a reader may enter. -/
theorem payload (levels levels' : Nat) :
    Passes W R g levels (Write.payload W g levels) (Read.payload R levels') := by
  induction levels generalizing levels' with
  | zero => cases levels' <;> exact layer reaches fun w none => by cases none
  | succ levels ih =>
    cases levels' with
    | zero => exact layer reaches fun w known => ⟨_, _, rfl, by cases known; exact ih 0, nofun⟩
    | succ levels' =>
      exact layer reaches fun w known => ⟨_, _, rfl, by cases known; exact ih levels',
        fun r' same => (Option.some.inj same).symm⟩

end Passes

/-! ## Positions -/

namespace Environment

variable {W R : Environment} {g : Graph} {v : Value}

/-- The value at the root is conveyed. -/
theorem Reaches.conveys_value (reaches : W.Reaches R g) (short : v.Short) :
    Conveys W g (Write.value W g (.ofFlags true W.config.trackRef) true .dynamic v)
      ((W.rootUse v).note (W.enter g W.config.maxDepth (W.rootUse v))) fun notes notes' bytes =>
        Reproduces W R g notes none notes'
          (Read.value R (.ofFlags true W.config.trackRef) true .dynamic) bytes
            (W.rootUse v).CopiedTo :=
  (Passes.payload reaches W.config.maxDepth R.config.maxDepth).marked reaches (W.rootUse v) short
    (q := ⟨true, .dynamic⟩) ⟨rfl, fun _ => .inl rfl, nofun⟩ true

/-- Whether copies lead from a value of a graph to what a reader made of it: those with a number are one
to one with the nodes that have it, and hold what their nodes do. -/
structure Mirrored (W R : Environment) (g : Graph) (v : Value) (g' : Graph) (w : Value)
    (all : List Copy) : Prop where
  root : (W.rootUse v).CopiedTo all w
  faithful : ∀ c ∈ all, c.Faithful W R g g' all
  shape : ∀ c ∈ all, c.tracked = true → (W.numbers g v).lookup c.node = some c.shape
  apart : ∀ c ∈ all, ∀ d ∈ all, c.tracked = true → d.tracked = true →
    (c.node = d.node ↔ c.place = d.place)

/-- What was added while the value at the root was read are such copies. -/
theorem mirrored_of_added {notes : Notes} {ws : WriteState} (noted : Noted W g notes ws)
    (numbered : notes.numbered = W.numbers g v) {start : Graph} {w : Value} {st : ReadState}
    (added : Read.Added W R g notes [] start (W.rootUse v).CopiedTo w st) :
    ∃ all, W.Mirrored R g v st.graph w all := by
  obtain ⟨made, aligned, -, later⟩ := added
  obtain ⟨faithful, root⟩ := later made st.graph (List.Subset.refl _) fun _ _ _ => rfl
  refine ⟨made, root, faithful, fun c member tracked => ?_, fun c hc d hd tracked tracked' => ?_⟩
  · have entries := aligned.numbered
    rw [Option.toList_none, List.append_nil, List.nil_append] at entries
    rw [← numbered, lookup_eq_some_iff_mem noted.distinct, entries]
    exact List.mem_map_of_mem (f := fun c => (c.node, c.shape)) (List.mem_filter.2 ⟨member, tracked⟩)
  · constructor
    · exact fun same => congrArg Copy.place
        (aligned.unique noted.distinct hc hd tracked tracked' same)
    · exact fun same => congrArg Copy.node (aligned.eq_of_place hc hd tracked tracked' same)

namespace Mirrored

variable {g' : Graph} {w : Value} {all : List Copy} (mirrored : W.Mirrored R g v g' w all)

include mirrored

/-- Where steps lead a writer to a node, the steps that correspond lead the reader to its copy. -/
theorem along_eq {path path' : List Step} {use : Use} (position : W.Position R g v path path' use)
    {h : Handle} (value : use.value = .handle h) :
    ∃ c ∈ all, c.tracked = use.tracked ∧ c.node = h ∧ (use.tracked = false → c.shape = use.shape) ∧
      g'.along w path' = some (.handle c.place) := by
  induction position generalizing h with
  | root =>
    obtain ⟨c, member, tracked, node, shape, same⟩ := mirrored.root h value
    exact ⟨c, member, tracked, node, shape, congrArg some same⟩
  | @step path path' tracked shape k _ step' use _ part counterpart ih =>
    obtain ⟨c, member, sameUse, node, untracked, found⟩ := ih rfl
    have shapes : W.shapeOf g v tracked shape k = c.shape := by
      unfold shapeOf
      cases tracked with
      | true => rw [if_pos rfl, ← node, mirrored.shape c member sameUse, Option.getD_some]
      | false => exact (untracked rfl).symm
    rw [shapes, ← node] at part
    obtain ⟨u, follow, copied⟩ := mirrored.faithful c member _ step' use part (node ▸ counterpart) h value
    obtain ⟨d, member', tracked', node', shape', same⟩ := copied h value
    refine ⟨d, member', tracked', node', shape', ?_⟩
    rw [Graph.along_append found step', ← same]
    exact follow

/-- Positions that are tracked hold one handle just if those that correspond do. -/
theorem same_handle_iff {path path' other other' : List Step} {shape shape' : Shape} {h k : Handle}
    (first : W.Position R g v path path' ⟨true, shape, .handle h⟩)
    (second : W.Position R g v other other' ⟨true, shape', .handle k⟩) :
    ∃ h' k', g'.along w path' = some (.handle h') ∧ g'.along w other' = some (.handle k') ∧
      (h = k ↔ h' = k') := by
  obtain ⟨c, hc, tracked, rfl, -, found⟩ := mirrored.along_eq first rfl
  obtain ⟨d, hd, tracked', rfl, -, found'⟩ := mirrored.along_eq second rfl
  exact ⟨c.place, d.place, found, found', mirrored.apart c hc d hd tracked tracked'⟩

end Mirrored

end Environment

/-! ## Instances -/

/-- The name of the type of a record. -/
def Node.typeName? : Node → Option String
  | .record r => some r.typeName
  | _ => none

/-- The names of the types of the records in a graph. -/
def Graph.typeNames (g : Graph) : List String := g.nodes.toList.filterMap Node.typeName?

theorem Graph.mem_typeNames {g : Graph} {h : Handle} {r : Record} (node : g.node h = .record r) :
    r.typeName ∈ g.typeNames := by
  unfold Graph.node at node
  cases found : g.nodes[h.index]? with
  | none =>
    rw [found] at node
    cases node
  | some n =>
    rw [found] at node
    refine List.mem_filterMap.2 ⟨n, Array.mem_toList_iff.2 (Array.mem_of_getElem? found), ?_⟩
    rw [show n = .record r from node]
    rfl

/-- In a graph of records of one type a writer sends one struct. -/
theorem Environment.Sends.eq_of_typeNames {env : Environment} {g : Graph} {s t : StructType}
    {name : String} (sends : env.Sends g t) (only : g.typeNames = [name])
    (found : env.registry.struct? name = some s) : t = s := by
  obtain ⟨h, r, node, written⟩ := sends
  have named := Graph.mem_typeNames node
  rw [only, List.mem_singleton] at named
  rw [structFor?_of_struct? (named ▸ found)] at written
  exact (Option.some.inj written).symm

/-- Whether all that the definition of a struct counts fits, however deep its containers nest: 32 bits
for the identifier and for sizes, and 15 bits for tags. -/
structure StructType.Brief (s : StructType) : Prop where
  ident : ∀ n, s.id = some n → n < 2 ^ 32
  definition : ∀ bytes, s.definition = some bytes → bytes.length < 2 ^ 32
  tags : ∀ f ∈ s.fields, ∀ tag, f.tag = some tag → tag < 2 ^ 15

theorem StructType.Short.brief {s : StructType} (short : s.Short) : s.Brief :=
  ⟨short.ident, short.definition, short.tags⟩

theorem StructType.Described.defined_of_brief {s : StructType} (described : s.Described true)
    (brief : s.Brief) : ∃ header after, s.Defined header after :=
  have deep : ∀ f ∈ s.fields, f.shape.nesting ≤ (s.fields.map (·.shape.nesting)).sum :=
    fun _ member => List.le_sum_of_mem (List.mem_map_of_mem member)
  described.defined (described.tellable brief.ident brief.definition brief.tags deep)

/-- Structs of different names that are sent with a graph are not more than the names of its types. -/
theorem Environment.Describing.length_le_typeNames {W : Environment} {g : Graph}
    (describing : W.Describing) {told : List StructType} (sent : ∀ s ∈ told, W.Sends g s)
    (distinct : (told.map (·.qualifiedName)).Nodup) :
    told.length ≤ g.typeNames.eraseDups.length := by
  have names : told.map (·.qualifiedName) ⊆ g.typeNames.eraseDups := by
    intro name member
    obtain ⟨s, listed, rfl⟩ := List.mem_map.1 member
    obtain ⟨h, r, node, found⟩ := sent s listed
    rw [(describing.cases_structFor? found).2.2, List.mem_eraseDups]
    exact Graph.mem_typeNames node
  have count := (List.subperm_of_subset distinct names).length_le
  rwa [List.length_map] at count

namespace Instance

/-- An instance in compatible mode tells of structs by definitions once it goes field by field. -/
theorem Reachable.describing {i : Instance} (reachable : i.Reachable) (sane : i.fault = none)
    (compatible : i.config.compatible = true) :
    (i.setStrategy .interpreted).environment.Describing :=
  { compatible
    strategy := rfl
    sound := reachable.sound.registry
    built := by
      have built := reachable.sound.built sane
      rwa [compatible] at built
    described := fun _ ⟨_, found⟩ => compatible ▸ reachable.described sane found }

/-- An instance in compatible mode goes field by field once it is told to. -/
theorem Reachable.evolving {i : Instance} (reachable : i.Reachable) (sane : i.fault = none)
    (compatible : i.config.compatible = true) (plain : ∀ s, i.registry.HasStruct s → s.Plain) :
    (i.setStrategy .interpreted).environment.Evolving :=
  { reachable.describing sane compatible with plain }

/-! ### Ways to go through records -/

theorem enter_setStrategy (i : Instance) (strategy : Strategy) (g : Graph) (levels : Nat) (use : Use) :
    (i.setStrategy strategy).environment.enter g levels use = i.environment.enter g levels use := by
  have uses : (i.setStrategy strategy).environment.uses = i.environment.uses := rfl
  induction levels generalizing use with
  | zero => rfl
  | succ levels ih =>
    funext numbered
    simp only [Environment.enter, uses, ih]

theorem numbers_setStrategy (i : Instance) (strategy : Strategy) (g : Graph) (v : Value) :
    (i.setStrategy strategy).environment.numbers g v = i.environment.numbers g v := by
  have root : (i.setStrategy strategy).environment.rootUse = i.environment.rootUse := rfl
  simp only [Environment.numbers, root, i.enter_setStrategy]
  rfl

theorem counterpart_setStrategy {W R : Instance} (strategy : Strategy) {n : Node} {step step' : Step}
    (h : W.environment.Counterpart R.environment n step step') :
    (W.setStrategy strategy).environment.Counterpart (R.setStrategy strategy).environment n step
      step' := by
  cases h with
  | item => exact .item ..
  | key => exact .key ..
  | value => exact .value ..
  | field written known sent kept corresponds => exact .field written known sent kept corresponds

/-- Positions do not depend on the way in which records are gone through. -/
theorem position_setStrategy {W R : Instance} (strategy : Strategy) {g : Graph} {v : Value}
    {path path' : List Step} {use : Use}
    (position : W.environment.Position R.environment g v path path' use) :
    (W.setStrategy strategy).environment.Position (R.setStrategy strategy).environment g v path path'
      use := by
  induction position with
  | root => exact .root
  | @step path path' tracked shape h step step' use _ part counterpart ih =>
    have shapes : (W.setStrategy strategy).environment.shapeOf g v tracked shape h =
        W.environment.shapeOf g v tracked shape h := by
      simp only [Environment.shapeOf, W.numbers_setStrategy]
    exact .step ih (shapes.symm ▸ part) (counterpart_setStrategy strategy counterpart)

/-! ### Numbers that stay -/

/-- Whether a writer and a fresh reader are of one mind about a graph: both are in compatible mode, and both
track references or neither does. Definitions that differ have different headers, no container is dynamic,
and all that is counted fits the format. -/
structure Accords (W R : Instance) (g : Graph) : Prop where
  writer : W.Reachable
  reader : R.Reachable
  fresh : R.cache = .empty
  compatible : W.config.compatible = true ∧ R.config.compatible = true
  references : W.config.trackRef = R.config.trackRef
  unlimited : R.config.limits = .unlimited
  plain : ∀ s, W.registry.HasStruct s ∨ R.registry.HasStruct s → s.Plain
  apart : HeadersApart fun s => W.environment.Sends g s ∨ R.registry.HasStruct s
  brief : ∀ s, W.environment.Sends g s ∨ R.registry.HasStruct s → s.Brief
  sized : g.Sized
  few : g.typeNames.eraseDups.length ≤ 2 ^ 31

namespace Accords

variable {W R : Instance} {g : Graph} (accords : W.Accords R g)

include accords

theorem reaches (sane : W.fault = none) (sane' : R.fault = none) :
    (W.setStrategy .interpreted).environment.Reaches (R.setStrategy .interpreted).environment g := by
  have writer := accords.writer.evolving sane accords.compatible.1 fun s known =>
    accords.plain s (.inl known)
  have reader := accords.reader.evolving sane' accords.compatible.2 fun s known =>
    accords.plain s (.inr known)
  refine ⟨writer, reader, accords.unlimited, accords.sized, ⟨fun s known => ?_, accords.apart⟩,
    fun told sent distinct => ?_⟩
  · have described : s.Described true := known.elim
      (fun sends => (writer.sendable_of_sends sends).described) (reader.described s)
    exact described.defined_of_brief (accords.brief s known)
  · exact Nat.le_trans (writer.length_le_typeNames sent distinct) accords.few

/-- What a reader makes of a frame has all that is known of reading the value in it. -/
theorem of_deserialize {v w : Value} {g' : Graph} {bytes : List UInt8} (present : v.isNull = false)
    (written : W.serialize g v = .ok bytes) (read : (R.deserialize bytes).1 = .ok (w, g'))
    {Q : Value → ReadState → Prop}
    (known : (W.setStrategy .interpreted).environment.Reaches (R.setStrategy .interpreted).environment g →
      Write.Ensures (Write.value (W.setStrategy .interpreted).environment g
        (.ofFlags true W.config.trackRef) true .dynamic v) .initial fun body _ => ∀ bytes,
          RunsIf False (Read.value (R.setStrategy .interpreted).environment
            (.ofFlags true W.config.trackRef) true .dynamic) (.ofBytes bytes .empty) body Q) :
    ∃ st, st.graph = g' ∧ Q w st := by
  have sane' := (ok_of_deserialize read).1
  obtain ⟨sane, ⟨rfl, -⟩ | ⟨-, body, ws, rfl, run⟩⟩ :=
    ok_of_serialize (accords.writer.serialize_interpreted written)
  · cases present
  have value := known (accords.reaches sane sane') body ws run (Encode.head false ++ body)
  rw [accords.references, ← accords.fresh] at value
  have alike := accords.reader.deserialize_interpreted read
  rcases deserialize_of_runsIf (i := R.setStrategy .interpreted) sane' value with
    ⟨_, st, same, holds⟩ | ⟨-, e, refused⟩
  · cases same.symm.trans alike
    exact ⟨st, rfl, holds⟩
  · cases refused.symm.trans alike

end Accords

/-- Whether a writer and a fresh reader follow the same references within a graph: both track them, in
compatible mode. Definitions that differ have different headers, no container is dynamic, and all that
is counted fits the format. -/
structure Tracks (W R : Instance) (g : Graph) : Prop where
  writer : W.Reachable
  reader : R.Reachable
  fresh : R.cache = .empty
  compatible : W.config.compatible = true ∧ R.config.compatible = true
  tracked : W.config.trackRef = true ∧ R.config.trackRef = true
  unlimited : R.config.limits = .unlimited
  plain : ∀ s, W.registry.HasStruct s ∨ R.registry.HasStruct s → s.Plain
  apart : HeadersApart fun s => W.environment.Sends g s ∨ R.registry.HasStruct s
  brief : ∀ s, W.environment.Sends g s ∨ R.registry.HasStruct s → s.Brief
  sized : g.Sized
  few : g.typeNames.eraseDups.length ≤ 2 ^ 31

namespace Tracks

variable {W R : Instance} {g : Graph} (tracks : W.Tracks R g)

include tracks

theorem accords : W.Accords R g :=
  { tracks with references := tracks.tracked.1.trans tracks.tracked.2.symm }

/-- What a reader made of a value is copies of it. -/
theorem mirrored {v : Value} (short : v.Short)
    (countable : (W.environment.numbers g v).length ≤ 2 ^ 32) {bytes : List UInt8}
    (written : W.serialize g v = .ok bytes) {w : Value} {g' : Graph}
    (read : (R.deserialize bytes).1 = .ok (w, g')) :
    ∃ all, (W.setStrategy .interpreted).environment.Mirrored
      (R.setStrategy .interpreted).environment g v g' w all := by
  by_cases null : v.isNull = true
  · have scalar : v.handle? = none := by
      rw [Value.eq_null_of_isNull null]
      rfl
    have none {p : Copy → Prop} : ∀ c ∈ ([] : List Copy), p c := fun _ member =>
      absurd member List.not_mem_nil
    exact ⟨[], Use.copiedTo_of_scalar scalar _ _, none, none, none⟩
  rw [← W.numbers_setStrategy .interpreted] at countable
  obtain ⟨_, rfl, notes, ws, noted, numbered, added⟩ := tracks.accords.of_deserialize (by simpa using null)
    written read
    (Q := fun w st => ∃ notes ws, Noted (W.setStrategy .interpreted).environment g notes ws ∧
      notes.numbered = (W.setStrategy .interpreted).environment.numbers g v ∧
        Read.Added (W.setStrategy .interpreted).environment (R.setStrategy .interpreted).environment g
          notes [] .empty ((W.setStrategy .interpreted).environment.rootUse v).CopiedTo w st)
    fun reaches body ws run bytes => by
      obtain ⟨notes, noted, numbered, -, reads⟩ :=
        reaches.conveys_value short _ _ (.initial _ g) body ws run
      exact (reads (numbered ▸ countable) [] _ (.initial _ _ g bytes)).mono fun _ _ added =>
        ⟨notes, ws, noted, numbered, added⟩
  exact Environment.mirrored_of_added noted numbered added

end Tracks

/-- Two positions within container elements, entries and fields that a writer and a reader match hold
one handle with the reader just if they do with the writer, if both are tracked. The node may stand
first in a field that the reader drops. -/
theorem slots_stay_aligned {W R : Instance} {g : Graph} (tracks : W.Tracks R g) {v : Value}
    (short : v.Short) (countable : (W.environment.numbers g v).length ≤ 2 ^ 32) {bytes : List UInt8}
    (written : W.serialize g v = .ok bytes) {w : Value} {g' : Graph}
    (read : (R.deserialize bytes).1 = .ok (w, g')) {path path' other other' : List Step}
    {shape shape' : Shape} {h k : Handle}
    (first : W.environment.Position R.environment g v path path' ⟨true, shape, .handle h⟩)
    (second : W.environment.Position R.environment g v other other' ⟨true, shape', .handle k⟩) :
    ∃ h' k', g'.along w path' = some (.handle h') ∧ g'.along w other' = some (.handle k') ∧
      (h = k ↔ h' = k') := by
  obtain ⟨all, mirrored⟩ := tracks.mirrored short countable written read
  exact mirrored.same_handle_iff (position_setStrategy _ first) (position_setStrategy _ second)

/-- The one struct of a registry that has no other. -/
theorem eq_of_names {r : Registry} {name : String} (names : r.structs.map (·.1) = [name])
    {s : StructType} (known : r.struct? name = some s) {n : String} {t : StructType}
    (found : r.struct? n = some t) : n = name ∧ t = s := by
  obtain ⟨entry, here, -⟩ := Registry.struct?_eq_some_iff.1 found
  have member : n ∈ r.structs.map (·.1) := List.mem_map_of_mem (mem_of_lookup here)
  rw [names] at member
  cases List.mem_singleton.1 member
  exact ⟨rfl, Option.some.inj (found.symm.trans known)⟩

theorem eq_empty_of_isEmpty {c : DefinitionCache} (none : c.entries.isEmpty = true) : c = .empty := by
  cases c
  simpa [DefinitionCache.empty] using none

/-- An instance in compatible mode that tracks references and knows a struct with fields for anything. -/
def tracing (names : List String) : Instance :=
  [.setLimits .unlimited, .setCompatible true, .setTrackRef true,
    .registerStruct (some 1) ⟨.ofNames "demo" "T", none, false, names.map fun name =>
      { FieldDecl.ofShape name .dynamic with nullable := true, refEligible := true }⟩].foldl perform
    fresh

/-- A list that holds another list twice, after a record that holds it. -/
def listedAgain : Graph :=
  ⟨#[.list [.handle ⟨1⟩, .handle ⟨2⟩, .handle ⟨2⟩],
    .record ((Record.ofType "demo.T").set "x" (.handle ⟨2⟩)), .list []]⟩

theorem listedAgain_sized : listedAgain.Sized := by
  refine .of_nodes fun n member => ?_
  simp only [listedAgain, List.mem_cons, List.not_mem_nil, or_false] at member
  rcases member with rfl | rfl | rfl
  · exact ⟨by decide, by simp [Node.contents, Value.Short]⟩
  · exact ⟨by decide, List.forall_mem_singleton.2 trivial⟩
  · exact ⟨by decide, fun _ none => absurd none List.not_mem_nil⟩

theorem tracks_tracing : (tracing ["x"]).Tracks (tracing []) listedAgain := by
  have known : ((tracing ["x"]).registry.struct? "demo.T").any (fun w =>
      w.Short ∧ w.Plain ∧ w.header? = some 3568630973452701701) = true := by decide +kernel
  have known' : ((tracing []).registry.struct? "demo.T").any (fun s =>
      s.Short ∧ s.Plain ∧ s.header? ≠ some 3568630973452701701) = true := by decide +kernel
  have names : (tracing ["x"]).registry.structs.map (·.1) = ["demo.T"] := by decide +kernel
  have names' : (tracing []).registry.structs.map (·.1) = ["demo.T"] := by decide +kernel
  have typeNames : listedAgain.typeNames = ["demo.T"] := by decide +kernel
  obtain ⟨w, old, checks⟩ := (Option.any_eq_true _ _).1 known
  obtain ⟨s, new, checks'⟩ := (Option.any_eq_true _ _).1 known'
  obtain ⟨short, plain, header⟩ := of_decide_eq_true checks
  obtain ⟨short', plain', header'⟩ := of_decide_eq_true checks'
  have only {t : StructType} (h : (tracing ["x"]).registry.HasStruct t) : t = w := by
    obtain ⟨n, found⟩ := h
    exact (eq_of_names names old found).2
  have only' {t : StructType} (h : (tracing []).registry.HasStruct t) : t = s := by
    obtain ⟨n, found⟩ := h
    exact (eq_of_names names' new found).2
  have sent {t : StructType} (h : (tracing ["x"]).environment.Sends listedAgain t) : t = w :=
    h.eq_of_typeNames typeNames old
  have differ : w.header? ≠ s.header? := fun same => header' (same ▸ header)
  exact
    { writer := ⟨_, rfl⟩
      reader := ⟨_, rfl⟩
      fresh := eq_empty_of_isEmpty (by decide +kernel)
      compatible := by decide +kernel
      tracked := by decide +kernel
      unlimited := by decide +kernel
      plain := by
        rintro t (h | h)
        · exact only h ▸ plain
        · exact only' h ▸ plain'
      apart := by
        rintro t t' (h | h) (h' | h') same
        · rw [sent h, sent h']
        · exact absurd (sent h ▸ only' h' ▸ same) differ
        · exact absurd (only' h ▸ sent h' ▸ same.symm) differ
        · rw [only' h, only' h']
      brief := by
        rintro t (h | h)
        · exact sent h ▸ short.brief
        · exact only' h ▸ short'.brief
      sized := listedAgain_sized
      few := by
        rw [typeNames]
        decide }

/-- What the reader makes of the list: the record has lost its field. -/
def listedStill : Graph :=
  ⟨#[.list [.handle ⟨1⟩, .handle ⟨2⟩, .handle ⟨2⟩], .record (.ofType "demo.T"), .list []]⟩

/-- The inner list is numbered within a field that the reader drops, and is one list with the reader. -/
theorem slots_stay_aligned_dropped : ∃ bytes, (tracing ["x"]).Tracks (tracing []) listedAgain ∧
    (tracing ["x"]).serialize listedAgain (.handle ⟨0⟩) = .ok bytes ∧
      ((tracing []).deserialize bytes).1 = .ok (.handle ⟨0⟩, listedStill) ∧
        ∃ h' k', listedStill.along (.handle ⟨0⟩) [.item 1] = some (.handle h') ∧
          listedStill.along (.handle ⟨0⟩) [.item 2] = some (.handle k') ∧
            ((⟨2⟩ : Handle) = ⟨2⟩ ↔ h' = k') := by
  have written : (tracing ["x"]).serialize listedAgain (.handle ⟨0⟩) = .ok [212, 98, 6, 0, 22, 3, 1, 0,
      28, 0, 5, 208, 26, 131, 246, 82, 134, 49, 1, 1, 3, 0, 120, 0, 22, 0, 254, 2, 254, 2] := by
    decide +kernel
  have read : ((tracing []).deserialize [212, 98, 6, 0, 22, 3, 1, 0, 28, 0, 5, 208, 26, 131, 246, 82,
      134, 49, 1, 1, 3, 0, 120, 0, 22, 0, 254, 2, 254, 2]).1 = .ok (.handle ⟨0⟩, listedStill) := by
    decide +kernel
  have countable : ((tracing ["x"]).environment.numbers listedAgain (.handle ⟨0⟩)).length ≤ 2 ^ 32 := by
    decide +kernel
  have root : (tracing ["x"]).environment.rootUse (.handle ⟨0⟩) = ⟨true, .dynamic, .handle ⟨0⟩⟩ := by
    decide +kernel
  have parts : ∀ i ∈ [1, 2], (Step.item i, (⟨true, .dynamic, .handle ⟨2⟩⟩ : Use)) ∈
      (tracing ["x"]).environment.uses ((tracing ["x"]).environment.shapeOf listedAgain (.handle ⟨0⟩)
        true .dynamic ⟨0⟩) (listedAgain.node ⟨0⟩) := by decide +kernel
  have position (i : Nat) (member : i ∈ [1, 2]) :
      (tracing ["x"]).environment.Position (tracing []).environment listedAgain (.handle ⟨0⟩)
        ([] ++ [.item i]) ([] ++ [.item i]) ⟨true, .dynamic, .handle ⟨2⟩⟩ :=
    .step (root ▸ .root) (parts i member) (.item _ i)
  have short : (Value.handle ⟨0⟩).Short := trivial
  exact ⟨_, tracks_tracing, written, read, slots_stay_aligned tracks_tracing short countable written
    read (position 1 (by decide)) (position 2 (by decide))⟩

end Instance

end Graphwire
