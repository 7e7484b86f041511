import Graphwire.Proofs.Described
import Graphwire.Proofs.Rebuilding
import Graphwire.Proofs.Sorting

/-!
# Parts of registries

Taking types away repairs structs and never breaks one, as long as the ancestors of a struct stay. A
field whose type is no longer known needs no default, and the fingerprint never told which
registered type it refers to.
-/

namespace Graphwire

set_option autoImplicit false

/-! ## Fields resolved with fewer types known -/

/-- Whether a field was resolved from the declaration of another one while fewer types were known,
whether or not references were tracked. -/
structure Field.Vaguer (f g : Field) : Prop where
  name : f.name = g.name
  tag : f.tag = g.tag
  constant : f.constant = g.constant
  template : f.template = g.template
  shape : f.shape = g.shape
  nullable : f.nullable = g.nullable
  refEligible : f.refEligible = g.refEligible
  type : f.type = g.type ∨ f.shape.isNamed = true ∧ f.type = .unknown ∧ g.type.isUser = true

theorem Field.vaguer_resolve {lookup lookup' : NamedLookup}
    (part : ∀ name info, lookup name = some info → lookup' name = some info)
    (registered : lookup'.Registered) (trackRef trackRef' : Bool) (declaring : String) (index : Nat)
    (f : FieldDecl) :
    (Field.resolve lookup trackRef declaring index f).Vaguer
      (Field.resolve lookup' trackRef' declaring index f) := by
  refine ⟨rfl, rfl, rfl, rfl, rfl, rfl, rfl, ?_⟩
  simp only [Field.resolve]
  cases shape : f.shape with
  | named name =>
    simp only [Shape.typeId]
    cases here : lookup name with
    | some info => exact .inl (by rw [part name info here])
    | none =>
      cases there : lookup' name with
      | none => exact .inl rfl
      | some info => exact .inr ⟨rfl, rfl, registered name info there⟩
  | _ => exact .inl rfl

namespace Field.Vaguer

variable {f g f' g' : Field}

theorem key (vaguer : f.Vaguer g) : f.key = g.key := by
  rw [Field.key, Field.key, vaguer.tag, vaguer.name]

theorem precedes (vaguer : f.Vaguer g) (vaguer' : f'.Vaguer g') :
    f.precedes f' = g.precedes g' := by
  rw [Field.precedes, Field.precedes, vaguer.tag, vaguer'.tag, vaguer.key, vaguer'.key]

/-- The fingerprint does not tell which registered type a field refers to. -/
theorem fingerprint (vaguer : f.Vaguer g) : f.fingerprint = g.fingerprint := by
  have type : f.type.forFingerprint = g.type.forFingerprint := by
    rcases vaguer.type with same | ⟨-, unknown, user⟩
    · rw [same]
    · rw [unknown, TypeId.forFingerprint_of_isUser user]
      rfl
  rw [Field.fingerprint, Field.fingerprint, vaguer.key, type, vaguer.refEligible, vaguer.nullable]

theorem needsDefault (vaguer : f.Vaguer g) {compatible : Bool}
    (fine : Registry.needsDefault compatible g = false) :
    Registry.needsDefault compatible f = false := by
  unfold Registry.needsDefault Field.hasDefault at fine ⊢
  rw [vaguer.nullable, vaguer.constant, vaguer.template, vaguer.shape]
  rcases vaguer.type with same | ⟨named, unknown, -⟩
  · rw [same]
    exact fine
  · rw [vaguer.shape] at named
    simp [named, unknown]

theorem encode (vaguer : f.Vaguer g) {bytes : List UInt8}
    (encoded : (FieldEntry.ofField g).encode = .ok bytes) :
    ∃ bytes', (FieldEntry.ofField f).encode = .ok bytes' := by
  have name : (FieldEntry.ofField f).name = (FieldEntry.ofField g).name := by
    simp only [FieldEntry.ofField, vaguer.tag, vaguer.name]
  have tag : (FieldEntry.ofField f).tag = (FieldEntry.ofField g).tag := vaguer.tag
  unfold FieldEntry.encode at encoded ⊢
  rw [name, tag]
  dsimp only at encoded ⊢
  split at encoded
  · split at encoded
    · cases encoded
    · rename_i nonneg
      exact ⟨_, if_neg nonneg⟩
  · split at encoded
    · cases encoded
    · rename_i some
      exact ⟨_, if_neg some⟩

end Field.Vaguer

/-- Whether fields were resolved from the same declarations while fewer types were known. -/
abbrev VaguerFields (fields fields' : List Field) : Prop :=
  List.Forall₂ Field.Vaguer fields fields'

theorem vaguer_resolveFields {lookup lookup' : NamedLookup}
    (part : ∀ name info, lookup name = some info → lookup' name = some info)
    (registered : lookup'.Registered) (trackRef trackRef' : Bool) (chain : List StructDecl) :
    VaguerFields (resolveFields lookup trackRef chain) (resolveFields lookup' trackRef' chain) := by
  rw [VaguerFields, List.forall₂_iff_get]
  refine ⟨by simp [resolveFields], fun i _ _ => ?_⟩
  simp only [resolveFields, List.get_eq_getElem, List.getElem_mapIdx]
  exact Field.vaguer_resolve part registered ..

theorem fingerprint_of_vaguer {fields fields' : List Field} (vaguer : VaguerFields fields fields') :
    fingerprint fields = fingerprint fields' := by
  obtain ⟨length, pairs⟩ := List.forall₂_iff_zip.1 vaguer
  have alike : ComparedAlike (fields.zip fields') :=
    fun p hp q hq => (pairs hp).precedes (pairs hq)
  have same := fingerprint_pairs alike fun p hp => (pairs hp).fingerprint
  rwa [List.map_fst_zip (by omega), List.map_snd_zip (by omega)] at same

/-- What can be defined still can be when fewer types are known. -/
theorem encode_of_vaguer {fields fields' : List Field} (vaguer : VaguerFields fields fields')
    {id : Option Nat} {package typeName : String} {bytes : List UInt8}
    (encoded : (StructType.definitionOf id package typeName (canonicalOrder fields')).encode =
      .ok bytes) :
    ∃ bytes', (StructType.definitionOf id package typeName (canonicalOrder fields)).encode =
      .ok bytes' := by
  obtain ⟨layer, made, -⟩ := bind_eq_ok_iff.1 encoded
  obtain ⟨entries, each, -⟩ := bind_eq_ok_iff.1 made
  have each := mapM_eq_ok_iff.1 each
  have every : ∀ e ∈ (canonicalOrder fields).map FieldEntry.ofField, ∃ bytes, e.encode = .ok bytes := by
    intro e member
    obtain ⟨f, hf, rfl⟩ := List.mem_map.1 member
    obtain ⟨i, lt, rfl⟩ := List.getElem_of_mem ((canonicalOrder_perm fields).mem_iff.1 hf)
    obtain ⟨length, related⟩ := List.forall₂_iff_get.1 vaguer
    have hg := (canonicalOrder_perm fields').mem_iff.2 (List.getElem_mem (length ▸ lt))
    obtain ⟨j, lt', same⟩ := List.getElem_of_mem (List.mem_map_of_mem (f := FieldEntry.ofField) hg)
    have encoded := (List.forall₂_iff_get.1 each).2 j lt' (by rwa [← each.length_eq])
    rw [List.get_eq_getElem] at encoded
    exact (related i lt (length ▸ lt)).encode (same ▸ encoded)
  obtain ⟨entries', each'⟩ := exists_forall₂ every
  have made' := mapM_eq_ok_iff.2 each'
  exact ⟨_, bind_eq_ok_iff.2 ⟨_, bind_eq_ok_iff.2 ⟨entries', made', rfl⟩, rfl⟩⟩

theorem StructType.build_of_vaguer {fields fields' : List Field}
    (vaguer : VaguerFields fields fields') {name : String} {id : Option Nat}
    {isAbstract compatible : Bool} {s : StructType}
    (built : StructType.build name id isAbstract fields' compatible = .ok s) :
    ∃ t, StructType.build name id isAbstract fields compatible = .ok t := by
  obtain ⟨version, hashed, built⟩ := bind_eq_ok_iff.1 built
  rw [structVersion, ← fingerprint_of_vaguer vaguer] at hashed
  cases compatible with
  | false => exact ⟨_, bind_eq_ok_iff.2 ⟨version, hashed, rfl⟩⟩
  | true =>
    dsimp only at built
    rw [if_pos rfl] at built
    obtain ⟨definition, made, -⟩ := bind_eq_ok_iff.1 built
    obtain ⟨bytes, encoded, -⟩ := map_eq_ok_iff.1 made
    obtain ⟨bytes', encoded'⟩ := encode_of_vaguer vaguer encoded
    exact ⟨_, bind_eq_ok_iff.2 ⟨version, hashed,
      bind_eq_ok_iff.2 ⟨some bytes', map_eq_ok_iff.2 ⟨bytes', encoded', rfl⟩, rfl⟩⟩⟩

namespace Registry

variable {r r' : Registry} {config : Config}

/-! ## Parts of a registry -/

/-- Whether a registry knows no more than another one. -/
structure Part (r r' : Registry) : Prop where
  lookup : ∀ compatible name info, r.lookup compatible name = some info →
    r'.lookup compatible name = some info
  declared : ∀ name d, r.declared? name = some d → r'.declared? name = some d
  enums : ∀ name e, r.enum? name = some e → r'.enum? name = some e
  count : r.structs.length ≤ r'.structs.length

/-- A chain that is found stays, also when more may be found and it may be longer. -/
theorem ancestry_mono {find find' : String → Option StructDecl}
    (part : ∀ name decl, find name = some decl → find' name = some decl) (name : String)
    {left more : Nat} (le : left ≤ more) {decl : StructDecl} {chain : List StructDecl}
    (found : ancestry find name left decl = .ok chain) :
    ancestry find' name more decl = .ok chain := by
  induction left generalizing more decl chain with
  | zero =>
    unfold ancestry at found ⊢
    cases above : decl.parent with
    | none => rwa [above] at found
    | some _ =>
      rw [above] at found
      cases found
  | succ left ih =>
    obtain ⟨more, rfl⟩ : ∃ n, more = n + 1 := ⟨more - 1, by omega⟩
    unfold ancestry at found ⊢
    cases above : decl.parent with
    | none => rwa [above] at found
    | some parent =>
      simp only [above] at found ⊢
      cases ancestor : find parent with
      | none =>
        rw [ancestor] at found
        cases found
      | some elder =>
        rw [ancestor] at found
        obtain ⟨front, short, rfl⟩ := map_eq_ok_iff.1 found
        rw [part _ _ ancestor]
        exact map_eq_ok_iff.2 ⟨front, ih (Nat.le_of_succ_le_succ le) short, rfl⟩

theorem Part.chain (part : r.Part r') {name : String} {decl : StructDecl} {chain : List StructDecl}
    (found : r.chain name decl = .ok chain) : r'.chain name decl = .ok chain := by
  refine ancestry_mono (fun parent ancestor known => ?_) name part.count found
  rw [map_lookup_decl] at known ⊢
  obtain ⟨d, declared, rfl⟩ := Option.map_eq_some_iff.1 known
  rw [part.declared parent d declared]
  rfl

/-! ## Checks with fewer types known -/

theorem Part.checkOrdinal (part : r.Part r') (owner : String) {f g : Field} (vaguer : f.Vaguer g)
    (checked : r'.checkOrdinal owner g = .ok ()) : r.checkOrdinal owner f = .ok () := by
  unfold Registry.checkOrdinal at checked ⊢
  rw [vaguer.constant, vaguer.shape]
  split
  · rename_i ordinal name constant shape
    rw [constant, shape] at checked
    dsimp only at checked
    split
    · rename_i e known
      rw [part.enums name e known] at checked
      dsimp only at checked
      split at checked
      · exact if_pos ‹_›
      · cases checked
    · rfl
  · rfl

theorem Part.checkDefault (part : r.Part r') (owner : String) {compatible : Bool} {f g : Field}
    (vaguer : f.Vaguer g) (checked : r'.checkDefault owner compatible g = .ok ()) :
    r.checkDefault owner compatible f = .ok () := by
  have needed (fine : (if needsDefault compatible g then
        Except.error (Error.defaultRequired g.name owner) else .ok ()) = Except.ok ()) :
      (if needsDefault compatible f then Except.error (Error.defaultRequired f.name owner)
        else .ok ()) = Except.ok () := by
    cases needed : needsDefault compatible g with
    | true =>
      rw [needed] at fine
      cases fine
    | false => rw [vaguer.needsDefault needed]; rfl
  unfold Registry.checkDefault at checked ⊢
  rw [vaguer.constant]
  cases known : g.constant with
  | none =>
    rw [known] at checked
    exact needed checked
  | some c =>
    rw [known] at checked
    obtain ⟨t, made, checked⟩ := bind_eq_ok_iff.1 checked
    obtain ⟨_, ordinal, fine⟩ := bind_eq_ok_iff.1 checked
    rw [vaguer.shape]
    exact bind_eq_ok_iff.2 ⟨t, made,
      bind_eq_ok_iff.2 ⟨(), part.checkOrdinal owner vaguer ordinal, needed fine⟩⟩

theorem Part.checkFields (part : r.Part r') (owner : String) {compatible : Bool} {tags : List Int}
    {fields fields' : List Field} (vaguer : VaguerFields fields fields')
    (checked : r'.checkFields owner compatible tags fields' = .ok ()) :
    r.checkFields owner compatible tags fields = .ok () := by
  induction vaguer generalizing tags with
  | nil => rfl
  | @cons f g rest rest' first _ ih =>
    obtain ⟨new, default, others⟩ := checkFields_cons_eq_ok_iff.1 checked
    rw [checkFields_cons_eq_ok_iff, first.tag]
    exact ⟨new, part.checkDefault owner first default, ih others⟩

/-- Building a struct stays possible when types are taken away, if its ancestors stay. -/
theorem Part.build (part : r.Part r') {name : String} {entry : StructEntry} {chain : List StructDecl}
    (ancestors : r.chain name entry.decl = .ok chain) {s : StructType}
    (built : r'.build config name entry = .ok s) : ∃ t, r.build config name entry = .ok t := by
  obtain ⟨chain', found, built⟩ := bind_eq_ok_iff.1 built
  rw [part.chain ancestors] at found
  cases found
  obtain ⟨_, declared, built⟩ := bind_eq_ok_iff.1 built
  obtain ⟨_, checked, built⟩ := bind_eq_ok_iff.1 built
  have vaguer := vaguer_resolveFields (part.lookup config.compatible)
    (r'.registered_lookup config.compatible) config.trackRef config.trackRef chain
  obtain ⟨t, made⟩ := StructType.build_of_vaguer vaguer built
  exact ⟨t, bind_eq_ok_iff.2 ⟨chain, ancestors, bind_eq_ok_iff.2 ⟨(), declared,
    bind_eq_ok_iff.2 ⟨(), part.checkFields name vaguer checked, made⟩⟩⟩⟩

end Registry

end Graphwire
