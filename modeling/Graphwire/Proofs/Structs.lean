import Graphwire.Proofs.Inheritance
import Graphwire.Proofs.Run

/-!
# Built structs

What holds of every struct that was built: its canonical fields are the resolved fields in another
order, no name occurs twice among them, its plan is the one of its fields, and its version hash has
32 bits. Structs made up for unregistered records are built in the same way.
-/

namespace Graphwire

set_option autoImplicit false

/-! ## Canonical order -/

theorem groupFields_perm (group : FieldGroup) (fields : List Field) :
    (groupFields group fields).Perm (fields.filter fun f => FieldGroup.ofField f = group) :=
  List.mergeSort_perm ..

/-- Picking the members of one group after the other picks every member once. -/
theorem flatMap_filter_perm (groups : List FieldGroup) (fields : List Field)
    (nodup : groups.Nodup) (complete : ∀ f ∈ fields, FieldGroup.ofField f ∈ groups) :
    (groups.flatMap fun g => fields.filter fun f => FieldGroup.ofField f = g).Perm fields := by
  induction groups generalizing fields with
  | nil => simp [List.eq_nil_iff_forall_not_mem.2 fun f hf => List.not_mem_nil (complete f hf)]
  | cons g groups ih =>
    obtain ⟨fresh, nodup⟩ := List.nodup_cons.1 nodup
    let others := fields.filter fun f => !decide (FieldGroup.ofField f = g)
    have same : (groups.flatMap fun k => fields.filter fun f => FieldGroup.ofField f = k) =
        groups.flatMap fun k => others.filter fun f => FieldGroup.ofField f = k := by
      rw [List.flatMap_def, List.flatMap_def]
      refine congrArg List.flatten (List.map_congr_left fun k hk => ?_)
      have ne : k ≠ g := fun e => fresh (e ▸ hk)
      simp only [others, List.filter_filter]
      apply List.filter_congr
      intro f _
      by_cases e : FieldGroup.ofField f = k <;> simp [e, ne]
    have rest : (groups.flatMap fun k => others.filter fun f => FieldGroup.ofField f = k).Perm
        others := by
      apply ih others nodup
      intro f hf
      simp only [others, List.mem_filter, Bool.not_eq_true', decide_eq_false_iff_not] at hf
      exact (List.mem_cons.1 (complete f hf.1)).resolve_left hf.2
    rw [List.flatMap_cons, same]
    exact (rest.append_left _).trans (List.filter_append_perm ..)

/-- The canonical order loses no field and repeats none. -/
theorem canonicalOrder_perm (fields : List Field) : (canonicalOrder fields).Perm fields := by
  have groups : (canonicalOrder fields).Perm
      (FieldGroup.all.flatMap fun g => fields.filter fun f => FieldGroup.ofField f = g) := by
    unfold canonicalOrder
    generalize FieldGroup.all = groups
    induction groups with
    | nil => exact .refl _
    | cons g groups ih => simpa using (groupFields_perm g fields).append ih
  refine groups.trans (flatMap_filter_perm _ _ (by decide) fun f _ => ?_)
  cases FieldGroup.ofField f <;> decide

/-! ## Field names -/

theorem names_resolveFields (lookup : NamedLookup) (trackRef : Bool) (chain : List StructDecl) :
    (resolveFields lookup trackRef chain).map (·.name) =
      (flattenFields chain).map (·.1.name) := by
  exact List.ext_getElem (by simp [resolveFields]) fun i _ _ => by
    simp [resolveFields, Field.resolve]

/-- What resolving settles about a field. -/
structure Field.Resolved (trackRef : Bool) (f : Field) : Prop where
  scalarType : ∀ t, f.shape = .scalar t → f.type = t
  dynamic : f.shape = .dynamic → f.dynamic = true
  tracked : f.tracked = (f.refEligible && trackRef)

theorem Field.Resolved.untracked {f : Field} (resolved : f.Resolved false) : f.tracked = false := by
  rw [resolved.tracked, Bool.and_false]

theorem Field.refMode_of_untracked {f : Field} (untracked : f.tracked = false) :
    f.refMode = if f.nullable then .nullOnly else .none := by
  rw [refMode, untracked]
  rfl

theorem Field.refMode_ne_tracking {f : Field} (untracked : f.tracked = false) :
    f.refMode ≠ .tracking := by
  rw [refMode_of_untracked untracked]
  cases f.nullable <;> decide

theorem resolved_resolveFields {lookup : NamedLookup} {trackRef : Bool} {chain : List StructDecl}
    {f : Field} (h : f ∈ resolveFields lookup trackRef chain) : f.Resolved trackRef := by
  obtain ⟨i, hi, rfl⟩ := List.mem_mapIdx.1 h
  refine ⟨fun t ht => ?_, fun hd => ?_, rfl⟩
  · simp only [Field.resolve] at ht ⊢
    rw [ht]
    rfl
  · simp only [Field.resolve] at hd ⊢
    simp [FieldDecl.isDynamic, hd]

/-! ## Built structs -/

/-- A struct built under a name and an identifier, for settings. -/
structure StructType.Built (compatible trackRef : Bool) (name : String) (id : Option Nat)
    (s : StructType) : Prop where
  qualifiedName : s.qualifiedName = name
  parts : splitQualified name = (s.package, s.typeName)
  ident : s.id = id
  kind : s.kind = structKind id.isSome compatible
  plan : s.plan = fieldPlan s.fields
  names : (s.fields.map (·.name)).Nodup
  resolved : ∀ f ∈ s.fields, f.Resolved trackRef
  version : -2 ^ 31 ≤ s.version ∧ s.version < 2 ^ 31

theorem fingerprintHash_range (text : String) :
    -2 ^ 31 ≤ fingerprintHash text ∧ fingerprintHash text < 2 ^ 31 := by
  unfold fingerprintHash
  split
  · decide
  · exact ⟨Int32.le_toInt _, Int32.toInt_lt _⟩

/-- A struct that is built has the fields in canonical order, and the hash of their fingerprint. -/
theorem StructType.fields_of_build {name : String} {id : Option Nat} {isAbstract compatible : Bool}
    {fields : List Field} {s : StructType}
    (h : StructType.build name id isAbstract fields compatible = .ok s) :
    s.fields = canonicalOrder fields ∧ s.version = fingerprintHash (fingerprint fields) := by
  obtain ⟨version, hashed, h⟩ := bind_eq_ok_iff.1 h
  dsimp only [structVersion] at hashed
  split at hashed <;> cases hashed
  dsimp only at h
  split at h
  all_goals
    obtain ⟨definition, -, h⟩ := bind_eq_ok_iff.1 h
    cases pure_eq_ok_iff.1 h
    exact ⟨rfl, rfl⟩

theorem StructType.build_built {lookup : NamedLookup} {compatible trackRef isAbstract : Bool}
    {chain : List StructDecl} {name : String} {id : Option Nat} {s : StructType}
    (h : StructType.build name id isAbstract (resolveFields lookup trackRef chain) compatible =
      .ok s) : s.Built compatible trackRef name id := by
  let fields := resolveFields lookup trackRef chain
  have order := canonicalOrder_perm fields
  have names : ((canonicalOrder fields).map (·.name)).Nodup := by
    refine (order.map _).nodup_iff.2 ?_
    rw [names_resolveFields]
    exact names_flattenFields chain
  have resolved : ∀ f ∈ canonicalOrder fields, f.Resolved trackRef :=
    fun f hf => resolved_resolveFields (order.mem_iff.1 hf)
  have version := fingerprintHash_range (fingerprint fields)
  obtain ⟨v, hv, h⟩ := bind_eq_ok_iff.1 h
  dsimp only [structVersion] at hv
  split at hv <;> cases hv
  dsimp only at h
  split at h
  all_goals
    obtain ⟨definition, -, h⟩ := bind_eq_ok_iff.1 h
    cases pure_eq_ok_iff.1 h
    exact ⟨rfl, rfl, rfl, rfl, rfl, names, resolved, version⟩

end Graphwire
