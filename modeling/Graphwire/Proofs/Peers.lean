import Graphwire.Proofs.Channels
import Graphwire.Proofs.Matching

/-!
# Types that peers share

In compatible mode the values of registered types carry their type, and structs their definition. So a
reader needs of a shape only where it is open, which the field types of a definition tell. A writer and
a reader that know the same types but for one are in step as long as every definition that was sent is
kept by the reader under its number. Then all values of the shared types come back.
-/

namespace Graphwire

set_option autoImplicit false

/-! ## Shapes without names -/

namespace Shape

/-- The shape with every name left open. -/
def erased : Shape → Shape
  | scalar t => scalar t
  | list e => list e.erased
  | set e => set e.erased
  | map k v => map k.erased v.erased
  | named _ | dynamic => dynamic

theorem erased_erased (shape : Shape) : shape.erased.erased = shape.erased := by
  induction shape with
  | list e ih | set e ih => simp only [erased, ih]
  | map k v ihk ihv => simp only [erased, ihk, ihv]
  | _ => rfl

theorem parts_erased (shape : Shape) :
    shape.erased.parts = (shape.parts.1.map erased, shape.parts.2.map erased) := by
  cases shape <;> rfl

/-- An open shape has no parts. -/
theorem parts_of_erased {shape : Shape} (h : shape.erased = dynamic) : shape.parts = (none, none) := by
  cases shape <;> first | rfl | cases h

end Shape

theorem TypeId.isDeclarable_of_isUser {t : TypeId} (h : t.isUser = true) : t.isDeclarable = false := by
  simp only [isUser, isEnum, isUnion, isStruct, Bool.or_eq_true, List.contains_iff_mem,
    List.mem_cons, List.not_mem_nil, or_false] at h
  rcases h with ((((rfl | rfl) | rfl | rfl | rfl) | rfl | rfl | rfl | rfl) | rfl | rfl) <;> rfl

theorem TypeId.not_container {t : TypeId} (h : t.isContainer = false) :
    t ≠ list ∧ t ≠ set ∧ t ≠ map := by
  refine ⟨?_, ?_, ?_⟩
  all_goals
    rintro rfl
    cases h

namespace FieldType

/-- A field type that is neither a container nor declarable says nothing of the shape. -/
theorem toShape_open {t : TypeId} {nullable tracked : Bool} {generics : List FieldType}
    (scalar : t.isContainer = false) (undeclarable : t.isDeclarable = false) :
    (mk t nullable tracked generics).toShape = .dynamic := by
  obtain ⟨noList, noSet, noMap⟩ := TypeId.not_container scalar
  rw [toShape, if_neg noList, if_neg noSet, if_neg noMap, undeclarable]
  rfl

/-- What a peer makes of the field type of a declared shape. -/
theorem toShape_fieldType {lookup : NamedLookup} (registered : lookup.Registered) {shape : Shape}
    (declarable : shape.undeclarable? = none) (nullable tracked : Bool) :
    (shape.fieldType lookup nullable tracked).toShape = shape.erased := by
  induction shape generalizing nullable tracked with
  | list e ih =>
    have inner := ih (Shape.declarable_part (.inl rfl) declarable) false false
    simp only [Shape.fieldType, toShape, partShape, inner, if_true, Shape.erased]
  | set e ih =>
    have inner := ih (Shape.declarable_part (.inl rfl) declarable) false false
    have other : TypeId.set ≠ TypeId.list := by decide
    simp only [Shape.fieldType, toShape, partShape, inner, other, if_true, if_false, Shape.erased]
  | map k v ihk ihv =>
    have key := ihk (Shape.declarable_part (.inl rfl) declarable) false false
    have value := ihv (Shape.declarable_part (.inr rfl) declarable) false false
    have noList : TypeId.map ≠ TypeId.list := by decide
    have noSet : TypeId.map ≠ TypeId.set := by decide
    simp only [Shape.fieldType, toShape, partShape, secondShape, key, value, noList, noSet, if_true,
      if_false, Shape.erased]
  | dynamic => exact toShape_open rfl rfl
  | named name =>
    rw [Shape.fieldType]
    cases known : lookup name with
    | none => exact toShape_open rfl rfl
    | some info =>
      have user := registered name info known
      exact toShape_open (TypeId.bound_of_isUser user).2 (TypeId.isDeclarable_of_isUser user)
  | scalar t =>
    have declared : t.isDeclarable = true := by simpa [Shape.undeclarable?] using declarable
    obtain ⟨noList, noSet, noMap⟩ := TypeId.not_container (TypeId.bound_of_isDeclarable declared).2
    rw [Shape.fieldType, toShape, if_neg noList, if_neg noSet, if_neg noMap, if_pos declared]
    rfl

mutual

/-- Field types that agree have one shape for peers. -/
theorem toShape_of_agrees : ∀ a b : FieldType, a.agrees b = true → a.toShape = b.toShape
  | mk t _ _ g, mk u _ _ h, agree => by
    rw [agrees, Bool.and_eq_true, decide_eq_true_eq] at agree
    obtain ⟨first, second⟩ := partShapes_of_allAgree g h agree.2
    rw [toShape, toShape, agree.1, first, second]

theorem partShapes_of_allAgree : ∀ as bs : List FieldType, allAgree as bs = true →
    partShape as = partShape bs ∧ secondShape as = secondShape bs
  | [], [], _ => ⟨rfl, rfl⟩
  | [], _ :: _, agree => by simp [allAgree] at agree
  | _ :: _, [], agree => by simp [allAgree] at agree
  | [a], [b], agree => by
    rw [allAgree, Bool.and_eq_true] at agree
    exact ⟨toShape_of_agrees a b agree.1, rfl⟩
  | [_], _ :: _ :: _, agree => by simp [allAgree] at agree
  | _ :: _ :: _, [_], agree => by simp [allAgree] at agree
  | a :: c :: _, b :: d :: _, agree => by
    rw [allAgree, allAgree, Bool.and_eq_true, Bool.and_eq_true] at agree
    exact ⟨toShape_of_agrees a b agree.1, toShape_of_agrees c d agree.2.1⟩

end

end FieldType

/-! ## Places -/

/-- Whether what is written at a place can be read at another one. Where the type is told, the
declared shape matters for the parts of containers alone; else names do not matter. -/
structure Place.Meets (p q : Place) : Prop where
  typed : p.typed = q.typed
  told : p.typed = true → p.shape = q.shape ∨ p.shape.parts = (none, none) ∧ q.shape.parts = (none, none)
  declared : p.typed = false → p.shape.erased = q.shape.erased ∧ p.shape.erased ≠ .dynamic

theorem Place.meets_root : root.Meets root := ⟨rfl, fun _ => .inl rfl, nofun⟩

namespace Environment

theorem isDeclared_of_compatible {env : Environment} (compatible : env.config.compatible = true)
    (shape : Shape) : env.isDeclared shape = decide (shape.erased ≠ .dynamic) := by
  cases shape with
  | named name => simp [isDeclared, compatible, Shape.erased]
  | dynamic => simp [isDeclared, Shape.erased]
  | _ => simp [isDeclared, Shape.erased]

variable {W R : Environment} (writer : W.config.compatible = true) (reader : R.config.compatible = true)

include writer reader

theorem meets_elementPlace {part part' : Option Shape}
    (same : part.map Shape.erased = part'.map Shape.erased) :
    (W.elementPlace part).Meets (R.elementPlace part') := by
  cases part with
  | none =>
    cases part' with
    | none => exact ⟨rfl, fun _ => .inl rfl, nofun⟩
    | some b => cases same
  | some a =>
    cases part' with
    | none => cases same
    | some b =>
      have same : a.erased = b.erased := Option.some.inj same
      unfold elementPlace
      simp only [Option.any_some, Option.getD_some, isDeclared_of_compatible writer,
        isDeclared_of_compatible reader, same]
      refine ⟨rfl, fun typed => .inr ?_, fun declared => ⟨same, ?_⟩⟩
      · have opened : b.erased = .dynamic := by simpa using typed
        exact ⟨Shape.parts_of_erased (same.trans opened), Shape.parts_of_erased opened⟩
      · simpa [same] using declared

theorem meets_parts {p q : Place} (met : p.Meets q) :
    (W.elementPlace p.shape.parts.1).Meets (R.elementPlace q.shape.parts.1) ∧
      (W.elementPlace p.shape.parts.2).Meets (R.elementPlace q.shape.parts.2) := by
  cases typed : p.typed with
  | true =>
    rcases met.told typed with same | ⟨left, right⟩
    · rw [same]
      exact ⟨meets_elementPlace writer reader rfl, meets_elementPlace writer reader rfl⟩
    · rw [left, right]
      exact ⟨meets_elementPlace writer reader rfl, meets_elementPlace writer reader rfl⟩
  | false =>
    have parts := congrArg Shape.parts (met.declared typed).1
    rw [Shape.parts_erased, Shape.parts_erased] at parts
    exact ⟨meets_elementPlace writer reader (congrArg (·.1) parts),
      meets_elementPlace writer reader (congrArg (·.2) parts)⟩

omit writer reader in
/-- No name is looked up for a shape that is not open. -/
theorem declaredType_erased {shape : Shape} (closed : shape.erased ≠ .dynamic) :
    W.declaredType shape = R.declaredType shape.erased := by
  cases shape <;> first | rfl | exact absurd rfl closed

omit writer reader in
theorem declaredType_of_meets {p q : Place} (met : p.Meets q) (typed : p.typed = false) :
    R.declaredType q.shape = W.declaredType p.shape := by
  obtain ⟨same, closed⟩ := met.declared typed
  rw [declaredType_erased (R := R) closed, same, declaredType_erased (R := R) (same ▸ closed)]

omit reader in
theorem meets_fieldPlace {trackRef : Bool} {f : Field} (resolved : f.Resolved trackRef) :
    (W.fieldPlace f).Meets (W.fieldPlace f) := by
  refine ⟨rfl, fun _ => .inl rfl, fun untyped => ⟨rfl, fun opened => ?_⟩⟩
  simp only [fieldPlace, Field.hasTypeInfo, writer, Bool.true_and, Bool.or_eq_false_iff] at untyped opened
  cases shape : f.shape with
  | named => rw [shape] at untyped; cases untyped.2
  | dynamic => rw [resolved.dynamic shape] at untyped; cases untyped.1
  | _ => rw [shape] at opened; cases opened

end Environment

/-! ## Fields of a peer -/

/-- Whether it is no container that is dynamic. -/
def Field.Whole (f : Field) : Prop := f.dynamic = true → f.shape.parts = (none, none)

/-- Whether no container is dynamic. -/
def StructType.Plain (s : StructType) : Prop :=
  ∀ f ∈ s.fields, f.dynamic = true → f.shape.parts = (none, none)

instance (s : StructType) : Decidable s.Plain :=
  inferInstanceAs (Decidable (∀ f ∈ s.fields, f.dynamic = true → f.shape.parts = (none, none)))

/-- Whether a field that is sent can be read with our field for it, or without one: they have one shape,
or neither is a container that is dynamic. -/
def Field.ReadableBy (f : Field) (own : Option Field) : Prop :=
  (∃ o, own = some o ∧ o.shape = f.shape) ∨ f.Whole ∧ ∀ o, own = some o → o.Whole

namespace Field.Described

variable {lookup : NamedLookup} (registered : lookup.Registered) {f : Field}
  (described : f.Described lookup)

include described

/-- A value carries its type where peers are told of no shape. -/
theorem hasTypeInfo : f.hasTypeInfo true = decide (f.toldShape.erased = .dynamic) := by
  unfold Field.hasTypeInfo Field.toldShape
  cases dynamic : f.dynamic with
  | true => simp [Shape.erased]
  | false =>
    obtain ⟨closed, -⟩ := described.known dynamic
    cases shape : f.shape with
    | dynamic => exact absurd shape closed
    | _ => simp [Shape.erased, Shape.isNamed]

/-- A peer writes the type of a field's value where it tells of no shape. -/
theorem typed_fieldPlace {W : Environment} (compatible : W.config.compatible = true) :
    (W.fieldPlace f).typed = decide (f.toldShape.erased = .dynamic) := by
  simp only [Environment.fieldPlace, compatible]
  exact described.hasTypeInfo

theorem flags_entry : (FieldEntry.ofField f).type.nullable = f.nullable ∧
    (FieldEntry.ofField f).type.tracked = f.tracked := by
  rw [described.entryType]
  exact Shape.flags_fieldType lookup f.nullable f.tracked f.toldShape

/-- The entry of a field is marked as the field is. -/
theorem refMode_entry (own : Option StructType) (matched : Option Nat) :
    (PeerField.ofEntry own (.ofField f) matched).refMode = f.refMode :=
  congr (congrArg RefMode.ofFlags described.flags_entry.1) described.flags_entry.2

omit described in
/-- A field of which no shape is told has no parts, unless it is a container that is dynamic. -/
theorem parts_shape (whole : f.Whole) (opened : f.toldShape.erased = .dynamic) :
    f.shape.parts = (none, none) := by
  cases dynamic : f.dynamic with
  | true => exact whole dynamic
  | false =>
    simp only [Field.toldShape, dynamic, Bool.false_eq_true, if_false] at opened
    exact Shape.parts_of_erased opened

omit described in
theorem toldShape_of_closed (closed : f.toldShape.erased ≠ .dynamic) : f.toldShape = f.shape := by
  unfold Field.toldShape at closed ⊢
  split at closed
  · exact absurd rfl closed
  · rename_i declared
    rw [if_neg declared]

include registered

theorem toShape_fieldType : f.fieldType.toShape = f.toldShape.erased := by
  rw [described.fieldType, Field.toldShape]
  split
  · exact FieldType.toShape_open rfl rfl
  · exact FieldType.toShape_fieldType registered described.declarable ..

theorem toShape_entry : (FieldEntry.ofField f).type.toShape = f.toldShape.erased := by
  rw [described.entryType]
  exact FieldType.toShape_fieldType registered described.toldShape ..

/-- A peer expects a type where it is told of no shape. -/
theorem typed_entry :
    ((FieldEntry.ofField f).type.type = .unknown || (FieldEntry.ofField f).type.type.isUser) =
      decide (f.toldShape.erased = .dynamic) := by
  have declarable := described.toldShape
  rw [described.entryType]
  cases shape : f.toldShape with
  | scalar t =>
    have declared : t.isDeclarable = true := by simpa [Shape.undeclarable?, shape] using declarable
    have noUser : t.isUser = false := by
      cases user : t.isUser with
      | false => rfl
      | true =>
        rw [TypeId.isDeclarable_of_isUser user] at declared
        cases declared
    have known : t ≠ .unknown := by
      rintro rfl
      cases declared
    simp [Shape.fieldType, FieldType.type, Shape.erased, noUser, known]
  | named name =>
    have opened : (lookup name).elim TypeId.unknown (·.type) = .unknown ∨
        ((lookup name).elim TypeId.unknown (·.type)).isUser = true := by
      cases known : lookup name with
      | none => exact .inl rfl
      | some info => exact .inr (registered name info known)
    exact Bool.or_eq_true_iff.2 (opened.imp_left fun same => decide_eq_true same)
  | dynamic => rfl
  | list e => rfl
  | set e => rfl
  | map k v => rfl

/-- What a peer writes of a field is read at the shape of the field. -/
theorem meets_shape {W : Environment} (compatible : W.config.compatible = true) :
    (W.fieldPlace f).Meets
      ⟨(FieldEntry.ofField f).type.type = .unknown || (FieldEntry.ofField f).type.type.isUser,
        f.shape⟩ := by
  have typed := described.typed_fieldPlace compatible
  refine ⟨typed.trans (described.typed_entry registered).symm, fun _ => .inl rfl,
    fun declared => ⟨rfl, ?_⟩⟩
  have closed : f.toldShape.erased ≠ .dynamic := by simpa [typed] using declared
  rwa [toldShape_of_closed closed] at closed

/-- What a peer writes of a field is read at any shape that leaves open what its entry leaves open. -/
theorem meets_of_erased {W : Environment} (compatible : W.config.compatible = true) (whole : f.Whole)
    {shape : Shape}
    (closed : f.toldShape.erased ≠ .dynamic → shape.erased = f.toldShape.erased)
    (opened : f.toldShape.erased = .dynamic → shape.parts = (none, none)) :
    (W.fieldPlace f).Meets
      ⟨(FieldEntry.ofField f).type.type = .unknown || (FieldEntry.ofField f).type.type.isUser,
        shape⟩ := by
  have typed := described.typed_fieldPlace compatible
  refine ⟨typed.trans (described.typed_entry registered).symm, fun told => .inr ?_, fun declared => ?_⟩
  · have told : f.toldShape.erased = .dynamic := by simpa [typed] using told
    exact ⟨parts_shape whole told, opened told⟩
  · have declared : f.toldShape.erased ≠ .dynamic := by simpa [typed] using declared
    dsimp only [Environment.fieldPlace]
    rw [closed declared, ← toldShape_of_closed declared]
    exact ⟨rfl, declared⟩

/-- What a peer writes of a field is read by the entry of the field. -/
theorem meets_entry {W : Environment} (compatible : W.config.compatible = true) (whole : f.Whole) :
    (W.fieldPlace f).Meets
      ⟨(FieldEntry.ofField f).type.type = .unknown || (FieldEntry.ofField f).type.type.isUser,
        (FieldEntry.ofField f).type.toShape⟩ := by
  rw [described.toShape_entry registered]
  refine described.meets_of_erased registered compatible whole (fun _ => Shape.erased_erased _)
    fun opened => ?_
  rw [opened]
  rfl

/-- What a peer writes of a field is read by a field of ours that corresponds to it. -/
theorem meets_own {W : Environment} (compatible : W.config.compatible = true) (whole : f.Whole)
    {ours : NamedLookup} (registered' : ours.Registered) {own : Field} (described' : own.Described ours)
    (whole' : own.Whole) (corresponds : f.Corresponds own) :
    (W.fieldPlace f).Meets
      ⟨(FieldEntry.ofField f).type.type = .unknown || (FieldEntry.ofField f).type.type.isUser,
        own.shape⟩ := by
  have same := FieldType.toShape_of_agrees _ _ corresponds.type
  rw [described'.toShape_fieldType registered', described.toShape_fieldType registered] at same
  refine described.meets_of_erased registered compatible whole (fun closed => ?_) fun opened => ?_
  · rw [← toldShape_of_closed (same ▸ closed)]
    exact same
  · exact parts_shape whole' (same.trans opened)

end Field.Described

namespace StructType

variable {s : StructType} {f own : Field}

theorem shape_peerField :
    (s.peerField f).shape = (s.counterpart? f).elim (FieldEntry.ofField f).type.toShape (·.shape) := rfl

/-- Fields that are no dynamic containers can be read by each other. -/
theorem readable_of_whole (keys : DistinctKeys s.fields) (whole : f.Whole)
    (whole' : ∀ own ∈ s.fields, own.Whole) : f.ReadableBy (s.counterpart? f) :=
  .inr ⟨whole, fun own known => whole' own ((counterpart?_eq_some_iff keys).1 known).1⟩

/-- What a peer writes of a field is read where it is told of the field. -/
theorem meets_peerField {W : Environment} (compatible : W.config.compatible = true)
    {theirs ours : NamedLookup} (registered : theirs.Registered) (described : f.Described theirs)
    (keys : DistinctKeys s.fields) (registered' : ours.Registered)
    (described' : ∀ own ∈ s.fields, own.Described ours) (readable : f.ReadableBy (s.counterpart? f)) :
    (W.fieldPlace f).Meets ⟨(s.peerField f).typed, (s.peerField f).shape⟩ := by
  rw [shape_peerField]
  rcases readable with ⟨own, known, same⟩ | ⟨whole, whole'⟩
  · rw [known, Option.elim_some, same]
    exact described.meets_shape registered compatible
  · cases known : s.counterpart? f with
    | none => exact described.meets_entry registered compatible whole
    | some own =>
      obtain ⟨member, corresponds⟩ := (counterpart?_eq_some_iff keys).1 known
      exact described.meets_own registered compatible whole registered' (described' own member)
        (whole' own known) corresponds

/-- A field is read as it is marked. -/
theorem refMode_peerField {theirs : NamedLookup} (described : f.Described theirs) :
    (s.peerField f).refMode = f.refMode :=
  described.refMode_entry ..

end StructType

/-! ## Same definitions -/

mutual

theorem FieldType.agrees_refl : ∀ a : FieldType, a.agrees a = true
  | mk t _ _ g => by simp [agrees, allAgree_refl g]

theorem FieldType.allAgree_refl : ∀ as : List FieldType, allAgree as as = true
  | [] => by simp [allAgree]
  | a :: as => by simp [allAgree, agrees_refl a, allAgree_refl as]

end

/-- Fields that a definition tells alike are marked alike. -/
theorem Field.flags_of_entry {f own : Field} {theirs ours : NamedLookup} (described : f.Described theirs)
    (described' : own.Described ours) (same : FieldEntry.ofField f = FieldEntry.ofField own) :
    own.nullable = f.nullable ∧ own.refMode = f.refMode := by
  obtain ⟨nullable, tracked⟩ := described.flags_entry
  obtain ⟨nullable', tracked'⟩ := described'.flags_entry
  rw [same] at nullable tracked
  have flags := And.intro (nullable'.symm.trans nullable) (tracked'.symm.trans tracked)
  exact ⟨flags.1, by rw [Field.refMode, Field.refMode, flags.1, flags.2]⟩

/-- Fields that a definition tells alike correspond. -/
theorem Field.corresponds_of_entry {f own : Field}
    (same : FieldEntry.ofField f = FieldEntry.ofField own) : f.Corresponds own := by
  have tag : f.tag = own.tag := congrArg (·.tag) same
  refine ⟨⟨tag, fun untagged => ?_⟩, ?_⟩
  · have name := congrArg (·.name) same
    simp only [FieldEntry.ofField, ← tag, untagged] at name
    exact name
  · have type := congrArg (·.type) same
    rw [← FieldType.agrees_withTracked _ _ f.tracked]
    show own.fieldType.agrees (FieldEntry.ofField f).type = true
    rw [type]
    exact (FieldType.agrees_withTracked ..).trans (FieldType.agrees_refl _)

namespace StructType

variable {w s : StructType} {header : Int} (same : w.told header = s.told header)

include same

/-- The fields of structs that are told alike correspond one by one. -/
theorem told_fields : List.Forall₂
    (fun f own => own ∈ s.fields ∧ FieldEntry.ofField f = FieldEntry.ofField own) w.fields s.fields := by
  have entries : w.fields.map FieldEntry.ofField = s.fields.map FieldEntry.ofField :=
    congrArg (·.fields) same
  have related := List.forall₂_eq_eq_eq ▸ entries
  obtain ⟨length, pairs⟩ := List.forall₂_iff_zip.1
    (List.forall₂_map_left_iff.1 (List.forall₂_map_right_iff.1 related))
  exact List.forall₂_iff_zip.2 ⟨length, fun pair => ⟨(List.of_mem_zip pair).2, pairs pair⟩⟩

/-- No field is missing where a peer tells what we tell. -/
theorem missing_eq_nil (keys : DistinctKeys s.fields) : s.missing w.fields = [] := by
  refine List.eq_nil_iff_forall_not_mem.2 fun i absent => ?_
  obtain ⟨lt, none⟩ := mem_missing.1 absent
  obtain ⟨f, member, -, entry⟩ := mem_of_forall₂ (List.Forall₂.flip (told_fields same))
    (List.getElem_mem lt)
  exact none f member ((position?_eq_some_iff keys).2
    ⟨_, List.getElem?_eq_getElem lt, Field.corresponds_of_entry entry⟩)

omit same in
/-- A field that is told like our own is read like it. -/
theorem peerField_of_entry {f own : Field} {ours : NamedLookup} (registered : ours.Registered)
    (described : own.Described ours) (keys : DistinctKeys s.fields) (member : own ∈ s.fields)
    (entry : FieldEntry.ofField f = FieldEntry.ofField own) :
    s.counterpart? f = some own ∧ (s.peerField f).typed = own.hasTypeInfo true ∧
      (s.peerField f).shape = own.shape := by
  have known : s.counterpart? f = some own :=
    (counterpart?_eq_some_iff keys).2 ⟨member, Field.corresponds_of_entry entry⟩
  refine ⟨known, ?_, ?_⟩
  · rw [described.hasTypeInfo, ← described.typed_entry registered, ← entry]
    rfl
  · rw [shape_peerField, known, Option.elim_some]

end StructType

end Graphwire
