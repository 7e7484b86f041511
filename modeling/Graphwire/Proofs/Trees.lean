import Graphwire.Proofs.Nodes
import Graphwire.Value.Sharing
import Mathlib.Data.List.Nodup

/-!
# Values as trees

A value without cycles unfolds to a tree, in which a shared node stands once for every way that
leads to it. In strict mode and without references a tree comes back restored: records keep their
declared fields that are not null, and scalars are what their place makes of them. The place of a
value says whether its type is written, and with which shape it is declared.
-/

namespace Graphwire

set_option autoImplicit false

/-- A value without handles. -/
inductive Tree where
  | leaf (v : Value)
  | list (elements : List Tree)
  | set (elements : List Tree)
  | map (entries : List (Tree × Tree))
  | record (typeName : String) (fields : List (String × Tree))
  deriving Repr

namespace Tree

def isNull : Tree → Bool
  | leaf v => v.isNull
  | _ => false

theorem eq_null_of_isNull {t : Tree} (h : t.isNull = true) : t = leaf .null := by
  cases t with
  | leaf v => rw [Value.eq_null_of_isNull h]
  | _ => cases h

theorem sizeOf_fst_lt {entries : List (Tree × Tree)} {e : Tree × Tree} (h : e ∈ entries) :
    sizeOf e.1 < sizeOf (map entries) := by
  have entry := List.sizeOf_lt_of_mem h
  obtain ⟨key, value⟩ := e
  simp only [Prod.mk.sizeOf_spec, map.sizeOf_spec] at entry ⊢
  omega

theorem sizeOf_snd_lt {entries : List (Tree × Tree)} {e : Tree × Tree} (h : e ∈ entries) :
    sizeOf e.2 < sizeOf (map entries) := by
  have entry := List.sizeOf_lt_of_mem h
  obtain ⟨key, value⟩ := e
  simp only [Prod.mk.sizeOf_spec, map.sizeOf_spec] at entry ⊢
  omega

theorem sizeOf_field_lt {name : String} {fields : List (String × Tree)} {e : String × Tree}
    (h : e ∈ fields) : sizeOf e.2 < sizeOf (record name fields) := by
  have entry := List.sizeOf_lt_of_mem h
  obtain ⟨key, value⟩ := e
  simp only [Prod.mk.sizeOf_spec, record.sizeOf_spec] at entry ⊢
  omega

end Tree

/-! ## Unfolding -/

namespace Graph

/-- Whether a value unfolds to a tree. A cycle has no tree. -/
inductive Unfolds (g : Graph) : Value → Tree → Prop where
  | leaf {v : Value} (scalar : v.handle? = none) : Unfolds g v (.leaf v)
  | list {h : Handle} {vs : List Value} {ts : List Tree} (node : g.node h = .list vs)
      (elements : List.Forall₂ (Unfolds g) vs ts) : Unfolds g (.handle h) (.list ts)
  | set {h : Handle} {vs : List Value} {ts : List Tree} (node : g.node h = .set vs)
      (elements : List.Forall₂ (Unfolds g) vs ts) : Unfolds g (.handle h) (.set ts)
  | map {h : Handle} {pairs : List (Value × Value)} {entries : List (Tree × Tree)}
      (node : g.node h = .map pairs)
      (keys : List.Forall₂ (Unfolds g) (pairs.map (·.1)) (entries.map (·.1)))
      (values : List.Forall₂ (Unfolds g) (pairs.map (·.2)) (entries.map (·.2))) :
      Unfolds g (.handle h) (.map entries)
  | record {h : Handle} {r : Record} {fields : List (String × Tree)} (node : g.node h = .record r)
      (names : r.fields.names = fields.map (·.1))
      (values : List.Forall₂ (Unfolds g) (r.fields.entries.map (·.2)) (fields.map (·.2))) :
      Unfolds g (.handle h) (.record r.typeName fields)

variable {g : Graph} {v : Value} {t : Tree}

theorem Unfolds.isNull (h : g.Unfolds v t) : t.isNull = v.isNull := by
  cases h <;> rfl

theorem nodeOf?_of_asRecord? {r : Record} (h : g.asRecord? v = some r) :
    g.nodeOf? v = some (.record r) := by
  unfold asRecord? at h
  split at h <;> cases h
  assumption

/-- A value with a node unfolds part by part. -/
theorem Unfolds.of_node {n : Node} (h : g.Unfolds v t) (found : g.nodeOf? v = some n) :
    match n with
    | .list vs => ∃ ts, t = .list ts ∧ List.Forall₂ g.Unfolds vs ts
    | .set vs => ∃ ts, t = .set ts ∧ List.Forall₂ g.Unfolds vs ts
    | .map pairs => ∃ entries, t = .map entries ∧
        List.Forall₂ g.Unfolds (pairs.map (·.1)) (entries.map (·.1)) ∧
        List.Forall₂ g.Unfolds (pairs.map (·.2)) (entries.map (·.2))
    | .record r => ∃ fields, t = .record r.typeName fields ∧
        r.fields.names = fields.map (·.1) ∧
        List.Forall₂ g.Unfolds (r.fields.entries.map (·.2)) (fields.map (·.2)) := by
  cases h with
  | leaf scalar => simp [nodeOf?, scalar] at found
  | list held elements => cases held.symm.trans (Option.some.inj found); exact ⟨_, rfl, elements⟩
  | set held elements => cases held.symm.trans (Option.some.inj found); exact ⟨_, rfl, elements⟩
  | map held keys values =>
    cases held.symm.trans (Option.some.inj found)
    exact ⟨_, rfl, keys, values⟩
  | record held names values =>
    cases held.symm.trans (Option.some.inj found)
    exact ⟨_, rfl, names, values⟩

theorem asRecord?_of_node {h : Handle} {r : Record} (node : g.node h = .record r) :
    g.asRecord? (.handle h) = some r := by
  simp [asRecord?, nodeOf?, Value.handle?, node]

/-- A value that unfolds to a record is the record. -/
theorem Unfolds.of_record {typeName : String} {fields : List (String × Tree)}
    (h : g.Unfolds v (.record typeName fields)) : ∃ r, g.asRecord? v = some r ∧
      r.typeName = typeName ∧ r.fields.names = fields.map (·.1) ∧
        List.Forall₂ g.Unfolds (r.fields.entries.map (·.2)) (fields.map (·.2)) := by
  cases h with
  | record node names values => exact ⟨_, asRecord?_of_node node, rfl, names, values⟩

/-- Whether the node of a value holds another value. -/
def Holds (g : Graph) (part whole : Value) : Prop := ∃ n, g.nodeOf? whole = some n ∧ part ∈ n.contents

/-- The parts of a value unfold to smaller trees. -/
theorem Unfolds.parts {part : Value} (h : g.Unfolds v t) (holds : g.Holds part v) :
    ∃ u, g.Unfolds part u ∧ sizeOf u < sizeOf t := by
  obtain ⟨n, found, member⟩ := holds
  cases n with
  | list vs =>
    obtain ⟨ts, rfl, elements⟩ := h.of_node found
    obtain ⟨u, hu, unfolds⟩ := mem_of_forall₂ elements member
    have := List.sizeOf_lt_of_mem hu
    exact ⟨u, unfolds, by simp only [Tree.list.sizeOf_spec]; omega⟩
  | set vs =>
    obtain ⟨ts, rfl, elements⟩ := h.of_node found
    obtain ⟨u, hu, unfolds⟩ := mem_of_forall₂ elements member
    have := List.sizeOf_lt_of_mem hu
    exact ⟨u, unfolds, by simp only [Tree.set.sizeOf_spec]; omega⟩
  | map pairs =>
    obtain ⟨entries, rfl, keys, values⟩ := h.of_node found
    obtain ⟨pair, hp, rfl | rfl⟩ := Node.mem_contents_map.1 member
    · obtain ⟨u, hu, unfolds⟩ := mem_of_forall₂ keys (List.mem_map_of_mem hp)
      obtain ⟨e, he, rfl⟩ := List.mem_map.1 hu
      exact ⟨_, unfolds, Tree.sizeOf_fst_lt he⟩
    · obtain ⟨u, hu, unfolds⟩ := mem_of_forall₂ values (List.mem_map_of_mem hp)
      obtain ⟨e, he, rfl⟩ := List.mem_map.1 hu
      exact ⟨_, unfolds, Tree.sizeOf_snd_lt he⟩
  | record r =>
    obtain ⟨fields, rfl, names, values⟩ := h.of_node found
    obtain ⟨u, hu, unfolds⟩ := mem_of_forall₂ values member
    obtain ⟨e, he, rfl⟩ := List.mem_map.1 hu
    exact ⟨_, unfolds, Tree.sizeOf_field_lt he⟩

/-- The values that unfold are those without cycles. -/
theorem exists_unfolds_iff : (∃ t, g.Unfolds v t) ↔ Acc g.Holds v := by
  constructor
  · rintro ⟨t, unfolds⟩
    induction size : sizeOf t using Nat.strongRecOn generalizing v t with
    | ind n ih =>
      refine .intro v ?_
      intro part holds
      obtain ⟨u, unfolds, smaller⟩ := unfolds.parts holds
      exact ih _ (size ▸ smaller) u unfolds rfl
  · intro acyclic
    induction acyclic with
    | intro v _ ih =>
      cases v with
      | handle h =>
        have parts : ∀ part ∈ (g.node h).contents, ∃ t, g.Unfolds part t :=
          fun part member => ih part ⟨_, rfl, member⟩
        cases node : g.node h with
        | list vs =>
          obtain ⟨ts, elements⟩ := exists_forall₂ (node ▸ parts)
          exact ⟨_, .list node elements⟩
        | set vs =>
          obtain ⟨ts, elements⟩ := exists_forall₂ (node ▸ parts)
          exact ⟨_, .set node elements⟩
        | map pairs =>
          have sides : ∀ pair ∈ pairs, ∃ e : Tree × Tree,
              g.Unfolds pair.1 e.1 ∧ g.Unfolds pair.2 e.2 := fun pair member => by
            rw [node] at parts
            obtain ⟨⟨key, hk⟩, value, hv⟩ := Node.forall_contents_map.1 parts pair member
            exact ⟨(key, value), hk, hv⟩
          obtain ⟨entries, h⟩ := exists_forall₂ sides
          refine ⟨.map entries, .map node ?_ ?_⟩
          all_goals rw [List.forall₂_map_left_iff, List.forall₂_map_right_iff]
          · exact h.imp fun _ _ e => e.1
          · exact h.imp fun _ _ e => e.2
        | record r =>
          have sides : ∀ e ∈ r.fields.entries, ∃ f : String × Tree, e.1 = f.1 ∧ g.Unfolds e.2 f.2 :=
            fun e member => by
              rw [node] at parts
              obtain ⟨t, ht⟩ := parts e.2 (List.mem_map_of_mem member)
              exact ⟨(e.1, t), rfl, ht⟩
          obtain ⟨fields, h⟩ := exists_forall₂ sides
          obtain ⟨names, values⟩ := forall₂_entries_iff.1 h
          exact ⟨_, .record node names values⟩
      | _ => exact ⟨_, .leaf rfl⟩

end Graph

/-! ## Places -/

/-- Where a value stands: whether its type is written, and the shape that it is declared with. -/
structure Place where
  typed : Bool
  shape : Shape
  deriving DecidableEq

/-- The place of the root. -/
def Place.root : Place := ⟨true, .dynamic⟩

/-- The types with the standard settings, which are strict. -/
def Registry.standard (r : Registry) : Environment := ⟨r, .standard⟩

/-- The place of a container's parts, in strict mode. -/
def Registry.elementPlace (r : Registry) (part : Option Shape) : Place :=
  ⟨!part.any r.standard.isDeclared, part.getD .dynamic⟩

/-- The place of a field's value, in strict mode. -/
def Field.place (f : Field) : Place := ⟨f.hasTypeInfo false, f.shape⟩

namespace Environment

/-- The place of a container's parts. -/
def elementPlace (env : Environment) (part : Option Shape) : Place :=
  ⟨!part.any env.isDeclared, part.getD .dynamic⟩

/-- The place of a field's value. -/
def fieldPlace (env : Environment) (f : Field) : Place :=
  ⟨f.hasTypeInfo env.config.compatible, f.shape⟩

/-- Elements that one side declares, the other side declares by a shape too, if it has their types
left out as well. -/
theorem known_of_declared {W R : Environment} {part part' : Option Shape} {elements : List Value}
    (typed : (W.elementPlace part).typed = (R.elementPlace part').typed)
    (declared : (W.elementHeader part elements).declared = true) :
    part'.all (· = .dynamic) = false := by
  have same : part.any W.isDeclared = part'.any R.isDeclared := Bool.not_inj_iff.1 typed
  have declared' : (R.elementHeader part' []).declared = true := same.symm.trans declared
  exact Read.declared_elementHeader declared'

/-- The settings alone decide which types are left out, and only for types that have a name. -/
theorem isDeclared_eq {env : Environment} {shape : Shape}
    (h : env.config.compatible = false ∨ shape.isNamed = false) :
    env.isDeclared shape = env.registry.standard.isDeclared shape := by
  cases shape with
  | named name =>
    rcases h with strict | unnamed
    · simp only [isDeclared, strict]
      rfl
    · cases unnamed
  | _ => rfl

/-- In strict mode the registry alone settles the places. -/
theorem Strict.elementPlace {env : Environment} (strict : env.Strict) (part : Option Shape) :
    env.elementPlace part = env.registry.elementPlace part := by
  have same : env.isDeclared = env.registry.standard.isDeclared :=
    funext fun _ => isDeclared_eq (.inl strict.compatible)
  rw [Environment.elementPlace, Registry.elementPlace, same]

theorem Strict.fieldPlace {env : Environment} (strict : env.Strict) (f : Field) :
    env.fieldPlace f = f.place := by
  rw [Environment.fieldPlace, strict.compatible]
  rfl

end Environment

/-- A declared field of a registered struct. -/
def Registry.field? (r : Registry) (typeName name : String) : Option Field :=
  (r.struct? typeName).bind fun s => s.fields.find? (·.name = name)

theorem Registry.field?_eq_some {r : Registry} {typeName : String} {s : StructType} {f : Field}
    (found : r.struct? typeName = some s) (names : (s.fields.map (·.name)).Nodup)
    (member : f ∈ s.fields) : r.field? typeName f.name = some f := by
  rw [Registry.field?, found, Option.bind_some]
  cases known : s.fields.find? (·.name = f.name) with
  | none => simpa using List.find?_eq_none.1 known f member
  | some f' =>
    have same : f'.name = f.name := by simpa using List.find?_some known
    exact congrArg some (List.inj_on_of_nodup_map names (List.mem_of_find?_eq_some known) member same)

/-! ## Restored values -/

/-- Instants are cut to microseconds. -/
def Value.cut : Value → Value
  | .timestamp instant => .timestamp instant.cut
  | v => v

/-- What a scalar value is once it was written at a place and read again. -/
def Value.restored (p : Place) (v : Value) : Value :=
  match p with
  | ⟨false, .scalar t⟩ => v.restoredAs t
  | _ => v.cut

/-- What a tree is once it was written at a place and read again. A record keeps exactly its
declared fields that are not null. -/
def Tree.restored (types : Registry) : Place → Tree → Tree
  | p, leaf v => leaf (v.restored p)
  | p, list elements => list (elements.map (restored types (types.elementPlace p.shape.parts.1)))
  | p, set elements => set (elements.map (restored types (types.elementPlace p.shape.parts.1)))
  | p, map entries =>
    map (entries.map fun e =>
      (restored types (types.elementPlace p.shape.parts.1) e.1,
        restored types (types.elementPlace p.shape.parts.2) e.2))
  | _, record typeName fields =>
    record typeName (fields.filterMap fun e =>
      if e.2.isNull then none
      else (types.field? typeName e.1).map fun f => (e.1, restored types f.place e.2))
termination_by _ t => sizeOf t
decreasing_by
  · have := List.sizeOf_lt_of_mem ‹_›
    simp only [list.sizeOf_spec]
    omega
  · have := List.sizeOf_lt_of_mem ‹_›
    simp only [set.sizeOf_spec]
    omega
  · exact sizeOf_fst_lt ‹_›
  · exact sizeOf_snd_lt ‹_›
  · exact sizeOf_field_lt ‹_›

theorem Value.restored_null (p : Place) : Value.null.restored p = .null := by
  unfold Value.restored
  split <;> rfl

theorem Value.restored_enum (p : Place) (typeName : String) (ordinal : Nat) :
    (Value.enum typeName ordinal).restored p = .enum typeName ordinal := by
  unfold Value.restored
  split <;> rfl

/-- Only declared scalars are turned into values of a type. -/
theorem Value.restored_eq_cut {p : Place} (h : p.typed = false → ∀ t, p.shape ≠ .scalar t)
    (v : Value) : v.restored p = v.cut := by
  unfold Value.restored
  split
  · exact absurd rfl (h rfl _)
  · rfl

/-- A restored value is null, or a handle, where the value was. -/
theorem Value.restored_kind (p : Place) (v : Value) :
    (v.restored p).isNull = v.isNull ∧ (v.restored p).handle? = v.handle? := by
  unfold Value.restored
  split
  · rename_i t
    cases v with
    | int n =>
      simp only [Value.restoredAs]
      cases h : Value.ofInt? t n.val with
      | none => exact ⟨rfl, rfl⟩
      | some u =>
        obtain ⟨kind, layout, -, -, rfl⟩ := Value.ofInt?_eq_some_iff.1 h
        exact ⟨rfl, rfl⟩
    | float32 bits => simp only [Value.restoredAs]; split <;> exact ⟨rfl, rfl⟩
    | _ => exact ⟨rfl, rfl⟩
  · cases v <;> exact ⟨rfl, rfl⟩

/-- A tree is restored in one way at places of one shape, unless the shape is a scalar one. -/
theorem Tree.restored_congr {types : Registry} {p q : Place} (shape : p.shape = q.shape)
    (typed : ∀ t, p.shape = .scalar t → p.typed = q.typed) (t : Tree) :
    t.restored types p = t.restored types q := by
  cases t with
  | leaf v =>
    rw [restored, restored]
    by_cases declared : ∃ t, p.shape = .scalar t
    · obtain ⟨t, scalar⟩ := declared
      have same : p = q := by
        obtain ⟨a, s⟩ := p
        obtain ⟨b, s'⟩ := q
        exact congr (congrArg Place.mk (typed t scalar)) shape
      rw [same]
    · rw [v.restored_eq_cut fun _ t scalar => declared ⟨t, scalar⟩,
        v.restored_eq_cut fun _ t scalar => declared ⟨t, shape.trans scalar⟩]
  | record => rw [restored, restored]
  | _ => rw [restored, restored, shape]

theorem Tree.restored_elementPlace (env : Environment) (part : Option Shape) :
    restored env.registry (env.elementPlace part) =
      restored env.registry (env.registry.elementPlace part) := by
  refine funext (restored_congr rfl fun t shape => ?_)
  cases part with
  | none => cases shape
  | some shape' =>
    cases shape
    rfl

theorem Tree.restored_fieldPlace (env : Environment) (f : Field) :
    restored env.registry (env.fieldPlace f) = restored env.registry f.place := by
  refine funext (restored_congr rfl fun t shape => ?_)
  simp only [Environment.fieldPlace, Field.place] at shape ⊢
  simp [Field.hasTypeInfo, shape, Shape.isNamed]

theorem Tree.isNull_restored (types : Registry) (p : Place) (t : Tree) :
    (t.restored types p).isNull = t.isNull := by
  cases t with
  | leaf v => rw [restored]; exact (v.restored_kind p).1
  | _ => rw [restored]; rfl

/-- The tree of a field, null when it is not set. -/
def Tree.fieldOf (fields : List (String × Tree)) (name : String) : Tree :=
  (fields.lookup name).getD (.leaf .null)

/-- The fields of a record unfold one by one. -/
theorem Graph.unfolds_fieldOf {g : Graph} {r : Record} {fields : List (String × Tree)}
    (names : r.fields.names = fields.map (·.1))
    (values : List.Forall₂ g.Unfolds (r.fields.entries.map (·.2)) (fields.map (·.2)))
    (name : String) : g.Unfolds (r.value name) (Tree.fieldOf fields name) := by
  have rel := rel_lookup (forall₂_entries_iff.2 ⟨names, values⟩) name
  have value : r.value name = (r.fields.entries.lookup name).getD .null := rfl
  rw [value, Tree.fieldOf]
  generalize r.fields.entries.lookup name = set, fields.lookup name = tree at rel ⊢
  cases rel with
  | none => exact .leaf rfl
  | some unfolds => exact unfolds

/-- The restored tree of a field, absent when the record does not keep it. -/
def Tree.kept (types : Registry) (typeName name : String) (t : Tree) : Option Tree :=
  if t.isNull then none
  else (types.field? typeName name).map fun f => t.restored types f.place

theorem Tree.restored_record (types : Registry) (p : Place) (typeName : String)
    (fields : List (String × Tree)) :
    (record typeName fields).restored types p =
      record typeName (fields.filterMap fun e => (kept types typeName e.1 e.2).map fun t => (e.1, t)) := by
  rw [restored]
  refine congrArg _ (congrArg (fields.filterMap ·) (funext fun e => ?_))
  unfold kept
  split
  · rfl
  · rw [Option.map_map]
    rfl

/-- What a record of a struct keeps of the tree of a field: nothing if that is null, and else what becomes
of it at the field. -/
def StructType.kept (s : StructType) (become : Field → Tree → Tree) (name : String) (t : Tree) :
    Option Tree :=
  if t.isNull then none else (s.fields.find? (·.name = name)).map (become · t)

theorem Tree.kept_eq {types : Registry} {typeName : String} {s : StructType}
    (found : types.struct? typeName = some s) :
    kept types typeName = s.kept fun f => restored types f.place := by
  funext name t
  rw [kept, StructType.kept, Registry.field?, found, Option.bind_some]

section

variable {g : Graph} {s : StructType} {become : Field → Tree → Tree} {typeName : String}
  {fields : List (String × Tree)} {r : Record} (null : ∀ f t, (become f t).isNull = t.isNull)
  (filled : Record.Filled (fun f w => g.Unfolds w (become f (Tree.fieldOf fields f.name))) s.fields
    (.ofType typeName) r)

include null filled

/-- The values of a record that is filled with what becomes of trees. -/
theorem Graph.rel_kept (name : String) :
    Option.Rel g.Unfolds (r.get? name) ((fields.lookup name).bind (s.kept become name)) := by
  cases known : s.fields.find? (·.name = name) with
  | none =>
    have absent : name ∉ s.fields.map (·.name) := by simpa using List.find?_eq_none.1 known
    have dropped : (fields.lookup name).bind (s.kept become name) = none := by
      cases fields.lookup name <;> simp [StructType.kept, known]
    rw [filled.other name absent, dropped]
    exact .none
  | some f =>
    have same : f.name = name := by simpa using List.find?_some known
    subst same
    obtain ⟨w, unfolds, value⟩ := filled.field f (List.mem_of_find?_eq_some known)
    have absent := unfolds.isNull
    have unset : (Record.ofType typeName).get? f.name = none := rfl
    rw [null, Tree.fieldOf] at absent
    rw [Tree.fieldOf] at unfolds
    rw [value, ← absent, unset]
    cases set : fields.lookup f.name with
    | none => exact .none
    | some t =>
      rw [set] at unfolds
      rw [Option.getD_some, Option.bind_some, StructType.kept]
      split
      · exact .none
      · rw [known]
        exact .some unfolds

/-- A record that is filled with what becomes of trees unfolds to what the struct keeps of them. -/
theorem Graph.unfolds_kept {h : Handle} (node : g.node h = .record r)
    (sorted : fields.Pairwise fun a b => a.1 < b.1) :
    g.Unfolds (.handle h)
      (.record typeName (fields.filterMap fun e => (s.kept become e.1 e.2).map fun t => (e.1, t))) := by
  have entries := forall₂_entries_iff.1 (forall₂_of_lookup r.fields.sorted
    (sorted_filterMap (s.kept become) sorted) fun name => by
      rw [lookup_filterMap (s.kept become) sorted]
      exact Graph.rel_kept null filled name)
  have name : r.typeName = typeName := filled.typeName
  rw [← name]
  exact .record node entries.1 entries.2

end

/-! ## What can be written -/

/-- Whether the name of an enumeration's member is the declared one, or leads to its type. -/
structure Value.Named (types : Registry) (p : Place) (v : Value) : Prop where
  declared : p.typed = false → ∀ name ordinal, v = .enum name ordinal →
    ∀ d e, p.shape = .named d → types.enum? d = some e → name = d
  unknown : p.typed = true → ∀ name ordinal, v = .enum name ordinal →
    types.enum? name = none → types.Recovers name

theorem Value.named_of_ne {types : Registry} {p : Place} {v : Value}
    (noEnum : ∀ name ordinal, v ≠ .enum name ordinal) : v.Named types p :=
  ⟨fun _ name ordinal same => absurd same (noEnum name ordinal),
    fun _ name ordinal same => absurd same (noEnum name ordinal)⟩

/-- Whether all sizes within a tree can be written, and the members of enumerations are named as
their places ask for. -/
inductive Tree.Writable (types : Registry) : Place → Tree → Prop where
  | leaf {p : Place} {v : Value} (short : v.Short) (named : v.Named types p) :
      Writable types p (.leaf v)
  | list {p : Place} {elements : List Tree} (count : elements.length < 2 ^ 32)
      (parts : ∀ t ∈ elements, Writable types (types.elementPlace p.shape.parts.1) t) :
      Writable types p (.list elements)
  | set {p : Place} {elements : List Tree} (count : elements.length < 2 ^ 32)
      (parts : ∀ t ∈ elements, Writable types (types.elementPlace p.shape.parts.1) t) :
      Writable types p (.set elements)
  | map {p : Place} {entries : List (Tree × Tree)} (count : entries.length < 2 ^ 32)
      (keys : ∀ e ∈ entries, Writable types (types.elementPlace p.shape.parts.1) e.1)
      (values : ∀ e ∈ entries, Writable types (types.elementPlace p.shape.parts.2) e.2) :
      Writable types p (.map entries)
  | record {p : Place} {typeName : String} {fields : List (String × Tree)}
      (parts : ∀ e ∈ fields, ∀ f, types.field? typeName e.1 = some f →
        Writable types f.place e.2) :
      Writable types p (.record typeName fields)

/-! ## What travels -/

/-- The types of records, and of members of enumerations, that can be told to a reader. -/
structure Telling where
  record : String → Prop
  enum : String → Prop

/-- Whether the name of an enumeration's member is the declared one, or can be told. -/
structure Value.Told (types : Registry) (telling : Telling) (p : Place) (v : Value) : Prop where
  declared : p.typed = false → ∀ name ordinal, v = .enum name ordinal →
    ∀ d e, p.shape = .named d → types.enum? d = some e → name = d
  told : p.typed = true → ∀ name ordinal, v = .enum name ordinal → telling.enum name

theorem Value.told_of_ne {types : Registry} {telling : Telling} {p : Place} {v : Value}
    (noEnum : ∀ name ordinal, v ≠ .enum name ordinal) : v.Told types telling p :=
  ⟨fun _ name ordinal same => absurd same (noEnum name ordinal),
    fun _ name ordinal same => absurd same (noEnum name ordinal)⟩

/-- Whether all sizes within a tree can be written and are admitted, and all types are known from
their places or can be told. -/
inductive Tree.Travels (env : Environment) (telling : Telling) : Place → Tree → Prop where
  | leaf {p : Place} {v : Value} (short : v.Short) (admitted : v.Admitted env.config.limits)
      (told : v.Told env.registry telling p) : Travels env telling p (.leaf v)
  | list {p : Place} {elements : List Tree} (count : elements.length < 2 ^ 32)
      (admitted : env.config.limits.Admits .collection elements.length)
      (parts : ∀ t ∈ elements, Travels env telling (env.elementPlace p.shape.parts.1) t) :
      Travels env telling p (.list elements)
  | set {p : Place} {elements : List Tree} (count : elements.length < 2 ^ 32)
      (admitted : env.config.limits.Admits .collection elements.length)
      (parts : ∀ t ∈ elements, Travels env telling (env.elementPlace p.shape.parts.1) t) :
      Travels env telling p (.set elements)
  | map {p : Place} {entries : List (Tree × Tree)} (count : entries.length < 2 ^ 32)
      (admitted : env.config.limits.Admits .map entries.length)
      (keys : ∀ e ∈ entries, Travels env telling (env.elementPlace p.shape.parts.1) e.1)
      (values : ∀ e ∈ entries, Travels env telling (env.elementPlace p.shape.parts.2) e.2) :
      Travels env telling p (.map entries)
  | record {p : Place} {typeName : String} {fields : List (String × Tree)}
      (told : p.typed = true → telling.record typeName)
      (parts : ∀ e ∈ fields, ∀ f, env.registry.field? typeName e.1 = some f →
        Travels env telling (env.fieldPlace f) e.2) :
      Travels env telling p (.record typeName fields)

theorem Tree.Travels.null {env : Environment} {telling : Telling} {p : Place} :
    (Tree.leaf .null).Travels env telling p :=
  .leaf trivial trivial (Value.told_of_ne fun _ _ same => by cases same)

theorem Tree.Travels.fieldOf {env : Environment} {telling : Telling} {p : Place}
    {typeName : String} {s : StructType} {fields : List (String × Tree)} {f : Field}
    (h : (Tree.record typeName fields).Travels env telling p)
    (found : env.registry.struct? typeName = some s) (names : (s.fields.map (·.name)).Nodup)
    (member : f ∈ s.fields) : (Tree.fieldOf fields f.name).Travels env telling (env.fieldPlace f) := by
  cases h with
  | record _ parts =>
    rw [Tree.fieldOf]
    cases set : fields.lookup f.name with
    | none => exact .null
    | some t =>
      obtain ⟨before, after, split, -⟩ := List.lookup_eq_some_iff.1 set
      exact parts (f.name, t) (by rw [split]; simp) f (Registry.field?_eq_some found names member)

namespace Tree.Travels

variable {env : Environment} {telling : Telling} {g : Graph} {p : Place} {v : Value} {t : Tree}

theorem short (h : t.Travels env telling p) (unfolds : g.Unfolds v t) : v.Short := by
  cases unfolds with
  | leaf => cases h; assumption
  | _ => exact trivial

theorem admitted (h : t.Travels env telling p) (unfolds : g.Unfolds v t) :
    v.Admitted env.config.limits := by
  cases unfolds with
  | leaf => cases h; assumption
  | _ => exact trivial

theorem told (h : t.Travels env telling p) (unfolds : g.Unfolds v t) :
    v.Told env.registry telling p := by
  cases unfolds with
  | leaf => cases h; assumption
  | _ => exact Value.told_of_ne fun _ _ same => by cases same

theorem toldRecord (h : t.Travels env telling p) (unfolds : g.Unfolds v t) (typed : p.typed = true)
    {r : Record} (isRecord : g.asRecord? v = some r) : telling.record r.typeName := by
  obtain ⟨fields, rfl, -, -⟩ := unfolds.of_node (Graph.nodeOf?_of_asRecord? isRecord)
  cases h with
  | record told => exact told typed

end Tree.Travels

/-! ## Types and places -/

namespace Environment.Tells

variable {env : Environment} {g : Graph} {p : Place} {v : Value}

theorem restoredAs_of_inferType? {t : TypeId} (h : g.inferType? v = some t) :
    v.restoredAs t = v.cut := by
  cases v with
  | int n =>
    simp only [Graph.inferType?, Option.some.injEq] at h
    have same : Value.ofInt? t n.val = some (.int n) := by
      let layout : IntLayout := if n.kind.bytes ≤ 2 then .fixed else .groups
      refine Value.ofInt?_eq_some_iff.2 ⟨n, layout, ?_, rfl, rfl⟩
      rw [← h]
      cases kind : n.kind <;> simp only [layout, kind] <;> decide
    rw [Value.restoredAs, same]
    rfl
  | float32 bits => cases h; rfl
  | _ => rfl

/-- A scalar value comes back as its place asks for. -/
theorem restoredAs {t : TypeId} (told : env.Tells g p.typed p.shape v (.builtin t))
    (scalar : t.isContainer = false) : v.restoredAs t = v.restored p := by
  obtain ⟨typed, shape⟩ := p
  generalize same : WireType.builtin t = wire at told
  cases told with
  | announced announced =>
    cases announced with
    | builtin noRecord inferred => cases same; exact restoredAs_of_inferType? inferred
    | _ => cases same
  | declared declared =>
    cases shape with
    | scalar t' => cases declared; cases same; rfl
    | list | set | map => cases declared; cases same; cases scalar
    | named name =>
      simp only [declaredType] at declared
      split at declared <;> cases declared <;> cases same
    | dynamic => cases declared

theorem struct {compatible trackRef : Bool} (built : env.registry.BuiltFor compatible trackRef)
    {s : StructType} {strictly : Bool}
    (told : env.Tells g p.typed p.shape v (.struct s strictly)) {r : Record}
    (isRecord : g.asRecord? v = some r) (named : r.typeName = s.qualifiedName) :
    env.registry.struct? r.typeName = some s := by
  obtain ⟨typed, shape⟩ := p
  generalize same : WireType.struct s strictly = wire at told
  cases told with
  | announced announced =>
    cases announced with
    | record known found =>
      cases same
      rw [isRecord] at known
      cases known
      exact found
    | _ => cases same
  | declared declared =>
    cases shape with
    | named name =>
      simp only [declaredType] at declared
      split at declared <;> cases declared
      · rename_i found
        cases same
        have found := Registry.named?_eq_struct_iff.1 found
        rw [named, (built.built found).qualifiedName, found]
      · cases same
    | dynamic => cases declared
    | _ => cases declared; cases same

theorem enum (sound : env.registry.Sound) {telling : Telling} {name typeName : String}
    {ordinal : Nat} {members : Option Nat}
    (told : env.Tells g p.typed p.shape (.enum name ordinal) (.enum typeName members))
    (named : (Value.enum name ordinal).Told env.registry telling p) : name = typeName := by
  obtain ⟨typed, shape⟩ := p
  generalize same : WireType.enum typeName members = wire at told
  cases told with
  | announced announced =>
    cases announced with
    | enum found =>
      cases same
      exact (sound.enumName found).qualifiedName.symm
    | unknownEnum => cases same; rfl
    | _ => cases same
  | declared declared =>
    cases shape with
    | named d =>
      simp only [declaredType] at declared
      split at declared <;> cases declared
      · cases same
      · rename_i e found
        have found := Registry.enum?_of_named? found
        cases same
        rw [named.declared rfl name ordinal rfl d e rfl found,
          (sound.enumName found).qualifiedName]
    | dynamic => cases declared
    | _ => cases declared; cases same

end Environment.Tells

end Graphwire
