import Graphwire.Proofs.Exchange

/-!
# Trees without null fields

What a writer without types writes of a tree, a reader without types reads as the tree without the fields
that are null. To such peers all types are unknown, so they share them all, and every record comes out with
all its fields that are not null.
-/

namespace Graphwire

set_option autoImplicit false

/-! ## Trees -/

namespace Tree

/-- A tree without the fields of its records that are null. -/
def pruned : Tree → Tree
  | leaf v => leaf v
  | list elements => list (elements.map pruned)
  | set elements => set (elements.map pruned)
  | map entries => map (entries.map fun e => (pruned e.1, pruned e.2))
  | record typeName fields =>
    record typeName (fields.filterMap fun e =>
      if e.2.isNull then none else some (e.1, pruned e.2))
termination_by t => sizeOf t
decreasing_by
  · have := List.sizeOf_lt_of_mem ‹_›
    simp only [list.sizeOf_spec]
    omega
  · have := List.sizeOf_lt_of_mem ‹_›
    simp only [set.sizeOf_spec]
    omega
  · exact sizeOf_fst_lt ‹_›
  · exact sizeOf_snd_lt ‹_›
  · exact sizeOf_field_lt ‹_›

/-- Whether a tree can be told exactly: its lengths and numbers fit the format, its instants are in whole
microseconds, and the names of its types are put together from their parts. -/
inductive Portable : Tree → Prop where
  | leaf {v : Value} (short : v.Short) (whole : v.cut = v)
      (named : ∀ name ordinal, v = .enum name ordinal → name.toList.head? ≠ some '.') :
      Portable (.leaf v)
  | list {elements : List Tree} (count : elements.length < 2 ^ 32)
      (parts : ∀ t ∈ elements, Portable t) : Portable (.list elements)
  | set {elements : List Tree} (count : elements.length < 2 ^ 32)
      (parts : ∀ t ∈ elements, Portable t) : Portable (.set elements)
  | map {entries : List (Tree × Tree)} (count : entries.length < 2 ^ 32)
      (keys : ∀ e ∈ entries, Portable e.1) (values : ∀ e ∈ entries, Portable e.2) :
      Portable (.map entries)
  | record {typeName : String} {fields : List (String × Tree)}
      (named : typeName.toList.head? ≠ some '.') (parts : ∀ e ∈ fields, Portable e.2) :
      Portable (.record typeName fields)

end Tree

/-! ## What is told -/

/-- Whether the structs that are sent with a graph can be told: definitions that differ have different
headers, and what is counted fits the format. -/
structure Environment.Announceable (env : Environment) (g : Graph) : Prop where
  apart : HeadersApart (env.Sends g)
  brief : ∀ s, env.Sends g s → s.Brief
  types : g.typeNames.eraseDups.length ≤ 2 ^ 31

/-- Short structs that were listed can be told if they have headers of their own. -/
theorem Environment.Announceable.of_sent {env : Environment} {g : Graph}
    (short : ∀ s ∈ env.sent g, s.Short)
    (apart : ∀ s ∈ env.sent g, ∀ s' ∈ env.sent g, s.header? = s'.header? → s.definition = s'.definition)
    (types : g.typeNames.eraseDups.length ≤ 2 ^ 31) : env.Announceable g where
  apart s s' sends sends' := apart s sends.mem_sent s' sends'.mem_sent
  brief s sends := (short s sends.mem_sent).brief
  types := types

namespace Environment.MakesUp

variable {W R : Environment} {g : Graph}

/-- The structs that are made up have no containers, so that they can be read if they are told briefly. -/
theorem readable (writer : W.MakesUp) (sound : W.registry.Sound) (announceable : W.Announceable g)
    {s : StructType} (sends : W.Sends g s) : s.Readable := by
  refine { announceable.brief s sends with nesting := fun f member => ?_ }
  obtain ⟨_, r, -, written⟩ := sends
  rcases ((writer.describing sound).cases_structFor? written).1 with registered | ⟨-, made⟩
  · rw [writer.struct?_eq_none] at registered
    cases registered
  · obtain ⟨-, shape, -, -⟩ := Registry.field_of_adhocStruct made member
    refine Nat.le_trans f.nesting_toldShape_le ?_
    rw [shape]
    decide

/-- A writer and a reader without types share all types. -/
theorem exchanges (writer : W.MakesUp) (reader : R.MakesUp) (sound : W.registry.Sound)
    (sound' : R.registry.Sound) (unlimited : R.config.limits = .unlimited)
    (announceable : W.Announceable g) (name : String) : W.Exchanges R g name where
  writer := writer.describing sound
  reader := reader.describing sound'
  untracked := writer.untracked
  unlimited
  shared :=
    { structs := fun n s _ found => by
        rw [writer.struct?_eq_none] at found
        cases found
      enums := fun n e found => by
        rw [writer.enum?_eq_none] at found
        cases found }
  readable _ := writer.readable sound announceable
  apart := announceable.apart
  types := announceable.types

/-- They admit every type. -/
theorem admits (writer : W.MakesUp) (name : String) : R.Admits W name where
  lenient _ := writer.lenient
  noStruct := writer.struct?_eq_none _

theorem admitsMember (writer : W.MakesUp) (name : String) (ordinal : Nat) : R.AdmitsMember W name ordinal :=
  { writer.admits name with
    member := fun e found => by
      rw [writer.enum?_eq_none] at found
      cases found }

end Environment.MakesUp

namespace Tree.Portable

variable {W R : Environment} {t : Tree} (portable : t.Portable)

include portable

theorem shared (writer : W.MakesUp) (reader : R.MakesUp) (name : String) : t.Shared W R name := by
  induction portable with
  | leaf short _ _ =>
    exact .leaf short fun n ordinal _ _ =>
      ⟨writer.admitsMember n ordinal, reader.admitsMember n ordinal⟩
  | list count _ ih => exact .list count ih
  | set count _ ih => exact .set count ih
  | map count _ _ keys values => exact .map count keys values
  | record _ _ ih =>
    refine .record (fun known => ?_) (fun _ => ⟨writer.admits _, reader.admits _⟩)
      fun e member _ => ih e member
    rw [writer.struct?_eq_none] at known
    cases known

/-- A tree comes out without its null fields where no type is known. -/
theorem carried (writer : W.MakesUp) : t.carried W .root = t.pruned := by
  induction portable with
  | @leaf v short whole named =>
    rw [Tree.carried_leaf, pruned]
    cases v with
    | enum name ordinal =>
      have same : rejoined name = name := qualify_splitQualified (named name ordinal rfl)
      simp [Value.carried, same]
    | _ => exact congrArg Tree.leaf whole
  | list _ _ ih =>
    rw [Tree.carried_list, pruned]
    exact congrArg Tree.list (List.map_congr_left fun t member => ih t member)
  | set _ _ ih =>
    rw [Tree.carried_set, pruned]
    exact congrArg Tree.set (List.map_congr_left fun t member => ih t member)
  | map _ _ _ keys values =>
    rw [Tree.carried_map, pruned]
    exact congrArg Tree.map (List.map_congr_left fun e member =>
      Prod.ext (keys e member) (values e member))
  | record named _ ih =>
    rw [Tree.carried_unknown (writer.struct?_eq_none _), pruned, rejoined, qualify_splitQualified named]
    refine congrArg (Tree.record _) (List.filterMap_congr fun e member => ?_)
    rw [ih e member]

end Tree.Portable

end Graphwire
