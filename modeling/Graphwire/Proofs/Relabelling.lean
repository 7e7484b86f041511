import Graphwire.Proofs.Trees

/-!
# Names that are not written

Where a shape declares a named type, values are written without their type. A writer compares the type
of a record with the declared one, but not that of a member of an enumeration, of which the ordinal is
written alone. So a tree is written as the tree in which such members have the declared names, and this
one is read back: types are kept, apart from the names that were not written.
-/

namespace Graphwire

set_option autoImplicit false

/-! ## Declared types -/

/-- The named type that a place declares for values that are written without their type. -/
def Place.type? (types : Registry) (p : Place) : Option NamedType :=
  match p with
  | ⟨false, .named name⟩ => types.named? name
  | _ => none

/-- The type as which values are written where a named type is declared. -/
def NamedType.wire : NamedType → WireType
  | .struct s => .struct s true
  | .enum e => e.wire

theorem Place.declaredType_of_type? {env : Environment} {p : Place} {named : NamedType}
    (h : p.type? env.registry = some named) :
    p.typed = false ∧ env.declaredType p.shape = .ok named.wire := by
  obtain ⟨_ | _, _ | _ | _ | _ | name | _⟩ := p <;> try cases h
  have found : env.registry.named? name = some named := h
  refine ⟨rfl, ?_⟩
  simp only [Environment.declaredType, found]
  cases named <;> rfl

/-- The name under which a member of an enumeration comes back from a place. -/
def Place.label (types : Registry) (p : Place) (name : String) : String :=
  match p.type? types with
  | some (.enum e) => e.qualifiedName
  | _ => name

/-- A member of an enumeration under the declared name, where an enumeration is declared. -/
def Value.labelled (types : Registry) (p : Place) : Value → Value
  | .enum name ordinal => .enum (p.label types name) ordinal
  | v => v

namespace Value

variable {types : Registry} {p : Place}

theorem labelled_of_typed (typed : p.typed = true) (v : Value) : v.labelled types p = v := by
  obtain ⟨_, shape⟩ := p
  cases typed
  cases v <;> rfl

theorem handle?_labelled (v : Value) : (v.labelled types p).handle? = v.handle? := by
  cases v <;> rfl

theorem isNull_labelled (v : Value) : (v.labelled types p).isNull = v.isNull := by
  cases v <;> rfl

/-- A value that is no member of an enumeration does not become one. -/
theorem restored_ne_enum {v : Value} (noEnum : ∀ name ordinal, v ≠ .enum name ordinal) (name : String)
    (ordinal : Nat) : v.restored p ≠ .enum name ordinal := by
  have cut : v.cut ≠ .enum name ordinal := by
    cases v <;> first | exact noEnum _ _ | exact fun same => by cases same
  unfold restored
  split
  · rename_i t
    cases v with
    | int n =>
      simp only [restoredAs]
      cases h : ofInt? t n.val with
      | none => exact noEnum _ _
      | some u =>
        obtain ⟨kind, layout, -, -, rfl⟩ := ofInt?_eq_some_iff.1 h
        exact fun same => by cases same
    | float32 bits =>
      simp only [restoredAs]
      split <;> exact fun same => by cases same
    | _ => exact cut
  · exact cut

end Value

namespace Tree

/-- The place of a record's field; a field that is not declared is not written anywhere. -/
def fieldPlace (types : Registry) (typeName name : String) : Place :=
  (types.field? typeName name).elim .root Field.place

/-- What a tree is written as: members of declared enumerations are under the declared names. -/
def labelled (types : Registry) : Place → Tree → Tree
  | p, leaf v => leaf (v.labelled types p)
  | p, list elements => list (elements.map (labelled types (types.elementPlace p.shape.parts.1)))
  | p, set elements => set (elements.map (labelled types (types.elementPlace p.shape.parts.1)))
  | p, map entries =>
    map (entries.map fun e =>
      (labelled types (types.elementPlace p.shape.parts.1) e.1,
        labelled types (types.elementPlace p.shape.parts.2) e.2))
  | _, record typeName fields =>
    record typeName (fields.map fun e =>
      (e.1, labelled types (fieldPlace types typeName e.1) e.2))
termination_by _ t => sizeOf t
decreasing_by
  · have := List.sizeOf_lt_of_mem ‹_›
    simp only [list.sizeOf_spec]
    omega
  · have := List.sizeOf_lt_of_mem ‹_›
    simp only [set.sizeOf_spec]
    omega
  · exact sizeOf_fst_lt ‹_›
  · exact sizeOf_snd_lt ‹_›
  · exact sizeOf_field_lt ‹_›

theorem isNull_labelled (types : Registry) (p : Place) (t : Tree) :
    (t.labelled types p).isNull = t.isNull := by
  cases t with
  | leaf v => rw [labelled]; exact v.isNull_labelled
  | _ => rw [labelled]; rfl

/-- A field that is not set stays so. -/
theorem fieldOf_labelled (types : Registry) (typeName : String) (fields : List (String × Tree))
    (name : String) :
    fieldOf (fields.map fun e => (e.1, labelled types (fieldPlace types typeName e.1) e.2)) name =
      (fieldOf fields name).labelled types (fieldPlace types typeName name) := by
  induction fields with
  | nil => rw [List.map_nil, fieldOf, List.lookup_nil, Option.getD_none, labelled]; rfl
  | cons e fields ih =>
    obtain ⟨first, t⟩ := e
    simp only [fieldOf, List.map_cons, List.lookup_cons] at ih ⊢
    cases here : name == first with
    | true => rw [eq_of_beq here]; rfl
    | false => exact ih

/-- What a tree is read back as. -/
def delivered (types : Registry) (p : Place) (t : Tree) : Tree :=
  (t.labelled types p).restored types p

/-! ## Planted trees -/

/-- Whether every graph can be extended by nodes so that a value unfolds to a tree. -/
def Grows (t : Tree) : Prop :=
  ∀ g : Graph, ∃ g₁ w, g.Extends g₁ ∧ ∀ g', g₁.Extends g' → g'.Unfolds w t

theorem grows_all {ts : List Tree} (grows : ∀ t ∈ ts, t.Grows) (g : Graph) :
    ∃ g₁ vs, g.Extends g₁ ∧ ∀ g', g₁.Extends g' → List.Forall₂ g'.Unfolds vs ts := by
  induction ts generalizing g with
  | nil => exact ⟨g, [], .refl g, fun _ _ => .nil⟩
  | cons t ts ih =>
    obtain ⟨first, others⟩ := List.forall_mem_cons.1 grows
    obtain ⟨g₁, v, ext₁, unfolds⟩ := first g
    obtain ⟨g₂, vs, ext₂, all⟩ := ih others g₁
    exact ⟨g₂, v :: vs, ext₁.trans ext₂, fun g' ext => .cons (unfolds g' (ext₂.trans ext)) (all g' ext)⟩

/-- A tree grows on a node whose contents were grown before. -/
theorem grows_on {t : Tree} (node : List Value → List Value → Node) {ts us : List Tree}
    (grows : ∀ t ∈ ts, t.Grows) (grows' : ∀ t ∈ us, t.Grows)
    (h : ∀ g k vs ws, List.Forall₂ (Graph.Unfolds g) vs ts → List.Forall₂ (Graph.Unfolds g) ws us →
      g.node k = node vs ws → g.Unfolds (.handle k) t) : t.Grows := by
  intro g
  obtain ⟨g₁, vs, ext₁, all⟩ := grows_all grows g
  obtain ⟨g₂, ws, ext₂, all'⟩ := grows_all grows' g₁
  refine ⟨(g₂.alloc (node vs ws)).2, .handle ⟨g₂.size⟩, (ext₁.trans ext₂).trans (.alloc ..), ?_⟩
  intro g' ext
  have old := (Graph.Extends.alloc g₂ (node vs ws)).trans ext
  refine h g' _ vs ws (all g' (ext₂.trans old)) (all' g' old) ?_
  rw [ext.node _ (by simp)]
  exact g₂.node_alloc_new _

theorem grows_list {ts : List Tree} (grows : ∀ t ∈ ts, t.Grows) : (list ts).Grows :=
  grows_on (fun vs _ => .list vs) grows (List.forall_mem_nil _) fun _ _ _ _ all _ node => .list node all

theorem grows_set {ts : List Tree} (grows : ∀ t ∈ ts, t.Grows) : (set ts).Grows :=
  grows_on (fun vs _ => .set vs) grows (List.forall_mem_nil _) fun _ _ _ _ all _ node => .set node all

theorem grows_map {es : List (Tree × Tree)} (keys : ∀ t ∈ es.map (·.1), t.Grows)
    (values : ∀ t ∈ es.map (·.2), t.Grows) : (map es).Grows := by
  refine grows_on (fun ks vs => .map (ks.zip vs)) keys values fun g k ks vs left right node => ?_
  have length : ks.length = vs.length := by simpa using left.length_eq.trans (right.length_eq.trans
    (by simp)).symm
  refine .map node ?_ ?_
  · rwa [List.map_fst_zip (Nat.le_of_eq length)]
  · rwa [List.map_snd_zip (Nat.le_of_eq length.symm)]

theorem pairwise_zip {names : List String} (sorted : names.Pairwise (· < ·)) (vs : List Value) :
    (names.zip vs).Pairwise fun a b => a.1 < b.1 := by
  induction sorted generalizing vs with
  | nil => exact .nil
  | cons first _ ih =>
    cases vs with
    | nil => exact .nil
    | cons v vs => exact .cons (fun e member => first _ (List.of_mem_zip member).1) (ih vs)

theorem grows_record {typeName : String} {fields : List (String × Tree)}
    (sorted : (fields.map (·.1)).Pairwise (· < ·)) (values : ∀ t ∈ fields.map (·.2), t.Grows) :
    (record typeName fields).Grows := by
  refine grows_on (fun vs _ => .record ⟨typeName, ⟨(fields.map (·.1)).zip vs, pairwise_zip sorted vs⟩⟩)
    values (List.forall_mem_nil _) fun g k vs _ all _ node => ?_
  have length : (fields.map (·.1)).length = vs.length := by simpa using all.length_eq.symm
  refine .record (r := ⟨typeName, ⟨_, pairwise_zip sorted vs⟩⟩) node ?_ ?_
  · exact List.map_fst_zip (Nat.le_of_eq length)
  · rwa [List.map_snd_zip (Nat.le_of_eq length.symm)]

/-- The tree of a value grows, also under the names that it is written under. -/
theorem grows_labelled {g : Graph} (types : Registry) {v : Value} {t : Tree} (unfolds : g.Unfolds v t)
    (p : Place) : (t.labelled types p).Grows := by
  induction size : sizeOf t using Nat.strongRecOn generalizing v t p with
  | ind n ih =>
    have all {vs : List Value} {ts : List Tree} (parts : List.Forall₂ g.Unfolds vs ts)
        (smaller : ∀ u ∈ ts, sizeOf u < n) (u : Tree) (member : u ∈ ts) (p : Place) :
        (u.labelled types p).Grows := by
      obtain ⟨v, -, unfolds⟩ := mem_of_forall₂ parts.flip member
      exact ih _ (smaller u member) unfolds p rfl
    subst size
    cases unfolds with
    | leaf scalar =>
      rw [labelled]
      exact fun g => ⟨g, _, .refl g, fun _ _ => .leaf (by rwa [Value.handle?_labelled])⟩
    | list node elements =>
      rw [labelled]
      refine grows_list (List.forall_mem_map.2 fun u member => all elements (fun u member => ?_) u member _)
      have := List.sizeOf_lt_of_mem member
      simp only [list.sizeOf_spec]
      omega
    | set node elements =>
      rw [labelled]
      refine grows_set (List.forall_mem_map.2 fun u member => all elements (fun u member => ?_) u member _)
      have := List.sizeOf_lt_of_mem member
      simp only [set.sizeOf_spec]
      omega
    | map node keys values =>
      rw [labelled]
      refine grows_map ?_ ?_
      · rw [List.map_map]
        exact List.forall_mem_map.2 fun e member => all keys (List.forall_mem_map.2 fun _ => sizeOf_fst_lt)
          e.1 (List.mem_map_of_mem member) _
      · rw [List.map_map]
        exact List.forall_mem_map.2 fun e member => all values (List.forall_mem_map.2 fun _ => sizeOf_snd_lt)
          e.2 (List.mem_map_of_mem member) _
    | @record h r fields node names values =>
      rw [labelled]
      refine grows_record ?_ ?_
      · rw [List.map_map]
        exact names ▸ List.pairwise_map.2 r.fields.sorted
      · rw [List.map_map]
        exact List.forall_mem_map.2 fun e member => all values (List.forall_mem_map.2 fun _ => sizeOf_field_lt)
          e.2 (List.mem_map_of_mem member) _

/-! ## Kept types -/

/-- Whether a tree is a record, or a member of an enumeration, as a named type asks for. -/
def IsOf (t : Tree) : NamedType → Prop
  | .struct s => ∃ fields, t = .record s.qualifiedName fields
  | .enum _ => ∃ name ordinal, t = .leaf (.enum name ordinal)

/-- Whether a tree is null or of the type that its place declares, if it declares a named one. -/
def Heeds (types : Registry) (p : Place) (t : Tree) : Prop :=
  ∀ named, p.type? types = some named → t.isNull = true ∨ t.IsOf named

/-- Whether a tree has the types of another one: its records are of the same types, and its members of
enumerations, too, apart from those that took the declared name. All values of the other tree that
have a counterpart are of the types that are declared for them. -/
inductive Retains (types : Registry) : Place → Tree → Tree → Prop where
  | scalar {p : Place} {v w : Value} (heeds : (leaf v).Heeds types p)
      (noEnum : ∀ name ordinal, v ≠ .enum name ordinal)
      (noEnum' : ∀ name ordinal, w ≠ .enum name ordinal) : Retains types p (leaf v) (leaf w)
  | enum {p : Place} {name : String} {ordinal : Nat} (heeds : (leaf (.enum name ordinal)).Heeds types p) :
      Retains types p (leaf (.enum name ordinal)) (leaf ((Value.enum name ordinal).labelled types p))
  | list {p : Place} {ts us : List Tree} (heeds : (list ts).Heeds types p)
      (length : ts.length = us.length)
      (parts : ∀ e ∈ ts.zip us, Retains types (types.elementPlace p.shape.parts.1) e.1 e.2) :
      Retains types p (list ts) (list us)
  | set {p : Place} {ts us : List Tree} (heeds : (set ts).Heeds types p)
      (length : ts.length = us.length)
      (parts : ∀ e ∈ ts.zip us, Retains types (types.elementPlace p.shape.parts.1) e.1 e.2) :
      Retains types p (set ts) (set us)
  | map {p : Place} {es us : List (Tree × Tree)} (heeds : (map es).Heeds types p)
      (length : es.length = us.length)
      (keys : ∀ e ∈ es.zip us, Retains types (types.elementPlace p.shape.parts.1) e.1.1 e.2.1)
      (values : ∀ e ∈ es.zip us, Retains types (types.elementPlace p.shape.parts.2) e.1.2 e.2.2) :
      Retains types p (map es) (map us)
  | record {p : Place} {typeName : String} {fields others : List (String × Tree)}
      (heeds : (record typeName fields).Heeds types p)
      (sub : ∀ e ∈ others, e.1 ∈ fields.map (·.1))
      (parts : ∀ e ∈ fields, ∀ e' ∈ others, e.1 = e'.1 → ∀ f, types.field? typeName e.1 = some f →
        Retains types f.place e.2 e'.2) :
      Retains types p (record typeName fields) (record typeName others)

/-- What holds of all things and their images holds of the pairs of both. -/
theorem forall_zip_map {α β : Type} {f : α → β} {as : List α} {P : α × β → Prop}
    (h : ∀ a ∈ as, P (a, f a)) : ∀ e ∈ as.zip (as.map f), P e := by
  induction as with
  | nil => exact fun _ member => absurd member List.not_mem_nil
  | cons a as ih =>
    obtain ⟨first, others⟩ := List.forall_mem_cons.1 h
    exact List.forall_mem_cons.2 ⟨first, ih others⟩

variable {types : Registry} {p : Place}

/-- A record comes back with its declared fields that are not null. -/
theorem delivered_record (types : Registry) (p : Place) (typeName : String)
    (fields : List (String × Tree)) :
    (record typeName fields).delivered types p =
      record typeName (fields.filterMap fun e => if e.2.isNull then none
        else (types.field? typeName e.1).map fun f => (e.1, e.2.delivered types f.place)) := by
  rw [delivered, labelled, restored, List.filterMap_map]
  refine congrArg _ (List.filterMap_congr fun e _ => ?_)
  simp only [Function.comp, isNull_labelled, delivered, fieldPlace]
  cases types.field? typeName e.1 <;> rfl

theorem retains_leaf {v : Value} (heeds : (leaf v).Heeds types p) :
    (leaf v).Retains types p ((leaf v).delivered types p) := by
  rw [delivered, labelled, restored]
  cases v with
  | «enum» name ordinal =>
    rw [show (Value.enum name ordinal).labelled types p = .enum (p.label types name) ordinal from rfl,
      Value.restored_enum]
    exact .enum heeds
  | _ =>
    exact .scalar heeds (fun _ _ same => by cases same)
      (Value.restored_ne_enum fun _ _ same => by cases same)

theorem retains_list {ts : List Tree} (heeds : (list ts).Heeds types p)
    (parts : ∀ t ∈ ts, t.Retains types (types.elementPlace p.shape.parts.1)
      (t.delivered types (types.elementPlace p.shape.parts.1))) :
    (list ts).Retains types p ((list ts).delivered types p) := by
  rw [delivered, labelled, restored, List.map_map]
  exact .list heeds (List.length_map _).symm (forall_zip_map parts)

theorem retains_set {ts : List Tree} (heeds : (set ts).Heeds types p)
    (parts : ∀ t ∈ ts, t.Retains types (types.elementPlace p.shape.parts.1)
      (t.delivered types (types.elementPlace p.shape.parts.1))) :
    (set ts).Retains types p ((set ts).delivered types p) := by
  rw [delivered, labelled, restored, List.map_map]
  exact .set heeds (List.length_map _).symm (forall_zip_map parts)

theorem retains_map {es : List (Tree × Tree)} (heeds : (map es).Heeds types p)
    (parts : ∀ e ∈ es, e.1.Retains types (types.elementPlace p.shape.parts.1)
        (e.1.delivered types (types.elementPlace p.shape.parts.1)) ∧
      e.2.Retains types (types.elementPlace p.shape.parts.2)
        (e.2.delivered types (types.elementPlace p.shape.parts.2))) :
    (map es).Retains types p ((map es).delivered types p) := by
  rw [delivered, labelled, restored, List.map_map]
  exact .map heeds (List.length_map _).symm (forall_zip_map fun e member => (parts e member).1)
    (forall_zip_map fun e member => (parts e member).2)

theorem retains_record {typeName : String} {fields : List (String × Tree)}
    (sorted : fields.Pairwise fun a b => a.1 < b.1) (heeds : (record typeName fields).Heeds types p)
    (parts : ∀ e ∈ fields, ∀ f, types.field? typeName e.1 = some f →
      e.2.Retains types f.place (e.2.delivered types f.place)) :
    (record typeName fields).Retains types p ((record typeName fields).delivered types p) := by
  have kept : ∀ e' ∈ fields.filterMap fun e => if e.2.isNull then none
      else (types.field? typeName e.1).map fun f => (e.1, e.2.delivered types f.place),
      ∃ e ∈ fields, ∃ f, types.field? typeName e.1 = some f ∧
        e' = (e.1, e.2.delivered types f.place) := by
    intro e' member
    obtain ⟨e, he, same⟩ := List.mem_filterMap.1 member
    split at same
    · cases same
    · obtain ⟨f, found, same⟩ := Option.map_eq_some_iff.1 same
      exact ⟨e, he, f, found, same.symm⟩
  rw [delivered_record]
  refine .record heeds (fun e' member => ?_) fun e he e' member same f found => ?_
  · obtain ⟨e, he, f, -, rfl⟩ := kept e' member
    exact List.mem_map.2 ⟨e, he, rfl⟩
  · obtain ⟨e₁, he₁, f₁, found₁, rfl⟩ := kept e' member
    have values : some e.2 = some e₁.2 := by
      rw [← lookup_of_mem sorted he, ← lookup_of_mem sorted he₁, show e.1 = e₁.1 from same]
    obtain rfl : e = e₁ := Prod.ext same (Option.some.inj values)
    cases found.symm.trans found₁
    exact parts e he f found

/-- A record of a struct keeps its types if its fields do. -/
theorem retains_struct {typeName : String} {fields : List (String × Tree)} {s : StructType}
    (found : types.struct? typeName = some s) (sorted : fields.Pairwise fun a b => a.1 < b.1)
    (heeds : (record typeName fields).Heeds types p)
    (kept : ∀ f ∈ s.fields, (fieldOf fields f.name).Retains types f.place
      ((fieldOf fields f.name).delivered types f.place)) :
    (record typeName fields).Retains types p ((record typeName fields).delivered types p) := by
  refine retains_record sorted heeds fun e member f declared => ?_
  have known : s.fields.find? (·.name = e.1) = some f := by
    rwa [Registry.field?, found, Option.bind_some] at declared
  have named : f.name = e.1 := by simpa using List.find?_some known
  have value : fieldOf fields f.name = e.2 := by
    rw [fieldOf, named, lookup_of_mem sorted member]
    rfl
  exact value ▸ kept f (List.mem_of_find?_eq_some known)

end Tree

end Graphwire
