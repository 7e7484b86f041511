import Graphwire.Instance
import Graphwire.Proofs.Structs

/-!
# Sound registries

In a sound registry every name belongs to one type, and every identifier that a type has is owned by
that type. Registering keeps a registry sound, also when it fails, and keeps its structs built for
the settings.
-/

namespace Graphwire

set_option autoImplicit false

/-- Whether an enumeration has a name, and its two parts make up the name. -/
structure EnumType.NamedBy (e : EnumType) (name : String) : Prop where
  qualifiedName : e.qualifiedName = name
  parts : qualify e.package e.typeName = name

namespace Registry

/-- The registered types: their names and identifiers. -/
def types (r : Registry) : List (String × Option Nat) :=
  r.structs.map (fun e => (e.1, e.2.id)) ++ r.enums.map (fun e => (e.1, e.2.id))

/-- What registering keeps true. -/
structure Sound (r : Registry) : Prop where
  distinct : (r.types.map (·.1)).Nodup
  owned : ∀ name id, (name, some id) ∈ r.types → r.ids.owner? id = some name
  enumNames : ∀ e ∈ r.enums, e.2.NamedBy e.1

/-- Whether the structs were built for settings. -/
def BuiltFor (r : Registry) (compatible trackRef : Bool) : Prop :=
  ∀ e ∈ r.structs, ∀ s, e.2.built = some s → s.Built compatible trackRef e.1 e.2.id

/-- Whether all structs that were built have a property, which their names and identifiers may enter. -/
def Everywhere (r : Registry) (P : String → Option Nat → StructType → Prop) : Prop :=
  ∀ e ∈ r.structs, ∀ s, e.2.built = some s → P e.1 e.2.id s

/-- Whether all that is built for settings has a property. -/
def BuildsOnly (config : Config) (P : String → Option Nat → StructType → Prop) : Prop :=
  ∀ (r : Registry) name entry s, r.build config name entry = .ok s → P name entry.id s

theorem mem_types_iff {r : Registry} {x : String × Option Nat} :
    x ∈ r.types ↔
      (∃ e ∈ r.structs, (e.1, e.2.id) = x) ∨ ∃ e ∈ r.enums, (e.1, e.2.id) = x := by
  simp [types]

theorem contains_eq_false_iff {r : Registry} {name : String} :
    r.contains name = false ↔ ∀ x ∈ r.types, x.1 ≠ name := by
  simp only [contains, Bool.or_eq_false_iff, Option.isSome_eq_false_iff, Option.isNone_iff_eq_none,
    List.lookup_eq_none_iff, mem_types_iff, bne_iff_ne]
  constructor
  · rintro ⟨hs, he⟩ _ (⟨e, h, rfl⟩ | ⟨e, h, rfl⟩)
    · exact fun eq => hs e h eq.symm
    · exact fun eq => he e h eq.symm
  · intro h
    exact ⟨fun e he eq => h _ (.inl ⟨e, he, rfl⟩) eq.symm,
      fun e he eq => h _ (.inr ⟨e, he, rfl⟩) eq.symm⟩

/-! ## Steps of a registration -/

theorem builds_built (config : Config) :
    BuildsOnly config fun name id s => s.Built config.compatible config.trackRef name id := by
  intro r name entry s h
  obtain ⟨chain, -, h⟩ := bind_eq_ok_iff.1 h
  obtain ⟨_, -, h⟩ := bind_eq_ok_iff.1 h
  obtain ⟨_, -, h⟩ := bind_eq_ok_iff.1 h
  exact StructType.build_built h

/-- Building entries keeps their names and identifiers. -/
theorem mapM_build {r : Registry} {config : Config} {before after : List (String × StructEntry)}
    (h : (before.mapM fun (name, entry) => do
      let built ← r.build config name entry
      return (name, { entry with built := some built })) = .ok after) :
    after.map (fun e => (e.1, e.2.id)) = before.map (fun e => (e.1, e.2.id)) ∧
      ∀ P, BuildsOnly config P → ∀ e ∈ after, ∀ s, e.2.built = some s → P e.1 e.2.id s := by
  induction mapM_eq_ok_iff.1 h with
  | nil => simp
  | cons made rest ih =>
    obtain ⟨s, hb, made⟩ := bind_eq_ok_iff.1 made
    cases pure_eq_ok_iff.1 made
    obtain ⟨same, built⟩ := ih (mapM_eq_ok_iff.2 rest)
    refine ⟨by simp [same], fun P only d hd t ht => ?_⟩
    rcases List.mem_cons.1 hd with rfl | hd
    · cases ht
      exact only _ _ _ _ hb
    · exact built P only d hd t ht

/-- A registry built anew knows the same types. -/
theorem rebuild_eq_ok {r r' : Registry} {config : Config} (h : r.rebuild config = .ok r') :
    r'.types = r.types ∧ r'.ids = r.ids ∧ r'.enums = r.enums ∧
      ∀ P, BuildsOnly config P → r'.Everywhere P := by
  obtain ⟨structs, hs, h⟩ := bind_eq_ok_iff.1 h
  cases pure_eq_ok_iff.1 h
  obtain ⟨same, built⟩ := mapM_build hs
  exact ⟨by simp [types, same], rfl, rfl, built⟩

theorem Sound.of_rebuild {r r' : Registry} {config : Config} (sound : r.Sound)
    (h : r.rebuild config = .ok r') : r'.Sound := by
  obtain ⟨types, ids, enums, -⟩ := rebuild_eq_ok h
  exact ⟨by rw [types]; exact sound.distinct, by rw [types, ids]; exact sound.owned,
    by rw [enums]; exact sound.enumNames⟩

theorem types_addStruct {r : Registry} {id : Option Nat} {decl : StructDecl} :
    (r.addStruct id decl).types.Perm ((decl.qualifiedName, id) :: r.types) := by
  simp only [types, addStruct, List.map_append, List.map_cons, List.map_nil, List.append_assoc]
  exact List.perm_middle

theorem types_addEnum {r : Registry} {id : Option Nat} {decl : EnumDecl} :
    (r.addEnum id decl).types.Perm ((decl.qualifiedName, id) :: r.types) := by
  simp only [types, addEnum, List.map_append, List.map_cons, List.map_nil, ← List.append_assoc]
  exact List.perm_append_singleton ..

theorem types_withdraw (r : Registry) (name : String) (id : Option Nat) :
    (r.withdraw name id).types = r.types.filter (·.1 ≠ name) := by
  have same : (r.withdraw name id).types =
      (r.structs.filter (·.1 ≠ name)).map (fun e => (e.1, e.2.id)) ++
        (r.enums.filter (·.1 ≠ name)).map (fun e => (e.1, e.2.id)) := by
    cases id <;> rfl
  rw [same, types, List.filter_append, List.filter_map, List.filter_map]
  rfl

theorem owner?_release {t : IdTable} {id other : Nat} (ne : other ≠ id) :
    (t.release id).owner? other = t.owner? other := by
  simp only [IdTable.release, IdTable.owner?]
  induction t.entries with
  | nil => rfl
  | cons e entries ih =>
    obtain ⟨n, name⟩ := e
    by_cases h : n = id
    · subst h
      have : (other == n) = false := by simpa using ne
      simpa [List.filter_cons, List.lookup_cons, this] using ih
    · simp only [List.filter_cons, h, ne_eq, not_false_eq_true, decide_true, if_true,
        List.lookup_cons]
      split
      · rfl
      · simpa using ih

/-- An identifier that no type has can be left without owner. -/
theorem Sound.release {r : Registry} (sound : r.Sound) (id : Option Nat)
    (unused : ∀ x ∈ r.types, ∀ n, id = some n → x.2 ≠ some n) : (r.release id).Sound := by
  cases id with
  | none => exact sound
  | some id =>
    refine ⟨sound.distinct, fun name n h => ?_, sound.enumNames⟩
    have ne : n ≠ id := fun e => unused _ h id rfl (congrArg some e)
    exact (owner?_release ne).trans (sound.owned name n h)

/-- A type and its identifier can be taken out. -/
theorem Sound.withdraw {r : Registry} {name : String} {id : Option Nat} (sound : r.Sound)
    (known : ∀ n, id = some n → r.ids.owner? n = some name) : (r.withdraw name id).Sound := by
  let rest : Registry :=
    { r with structs := r.structs.filter (·.1 ≠ name), enums := r.enums.filter (·.1 ≠ name) }
  have types : rest.types = r.types.filter (·.1 ≠ name) := types_withdraw r name none
  have kept : rest.Sound := by
    refine ⟨?_, fun n i h => ?_, fun e he => sound.enumNames e (List.mem_filter.1 he).1⟩
    · rw [types]
      exact sound.distinct.sublist (List.filter_sublist.map _)
    · rw [types] at h
      exact sound.owned n i (List.mem_filter.1 h).1
  apply kept.release id
  intro x hx n hn owns
  rw [types] at hx
  obtain ⟨hx, ne⟩ := List.mem_filter.1 hx
  have owner := sound.owned x.1 n (by rw [← owns]; exact hx)
  rw [known n hn, Option.some.injEq] at owner
  simp [owner] at ne

theorem claim_eq_ok {r r' : Registry} {id : Option Nat} {name : String}
    (h : r.claim id name = .ok r') :
    r'.structs = r.structs ∧ r'.enums = r.enums ∧
      (∀ n, id = some n → r'.ids.owner? n = some name) ∧
      ∀ n owner, r.ids.owner? n = some owner → r'.ids.owner? n = some owner := by
  cases id with
  | none => cases h; simp
  | some id =>
    simp only [claim, IdTable.claim] at h
    cases free : r.ids.owner? id with
    | some holder =>
      by_cases same : holder = name
      · simp only [free, same, if_true] at h
        cases h
        refine ⟨rfl, rfl, fun n hn => ?_, fun n owner hn => hn⟩
        cases hn
        rw [free, same]
      · simp only [free, same, if_false] at h
        cases h
    | none =>
      simp only [free] at h
      cases h
      refine ⟨rfl, rfl, fun n hn => ?_, fun n owner hn => ?_⟩
      · cases hn
        simp [IdTable.owner?]
      · have ne : (n == id) = false := by
          simp only [beq_eq_false_iff_ne]
          exact fun e => by simp [e, free] at hn
        simpa only [IdTable.owner?, List.lookup_cons, ne] using hn

/-! ## Settling -/

/-- Building after a type has joined leaves a sound registry; if it fails the type is gone. -/
theorem settle_sound {r : Registry} {config : Config} {name : String} {id : Option Nat}
    (sound : r.Sound) (known : ∀ n, id = some n → r.ids.owner? n = some name) :
    (r.settle config name id).2.Sound := by
  have back := sound.withdraw known
  unfold settle
  split
  · rename_i r' h
    exact sound.of_rebuild h
  · dsimp only
    split
    · rename_i r' h
      exact back.of_rebuild h
    · exact back

theorem settle_everywhere {P : String → Option Nat → StructType → Prop} {r : Registry}
    {config : Config} (only : BuildsOnly config P) {name : String} {id : Option Nat}
    (before : r.Everywhere P) : (r.settle config name id).2.Everywhere P := by
  unfold settle
  split
  · rename_i r' h
    exact (rebuild_eq_ok h).2.2.2 P only
  · dsimp only
    split
    · rename_i r' h
      exact (rebuild_eq_ok h).2.2.2 P only
    · intro e he
      apply before e
      cases id <;> exact (List.mem_filter.1 he).1

theorem types_settle_error {r : Registry} {config : Config} {name : String} {id : Option Nat}
    {e : Error} (h : (r.settle config name id).1 = .error e) :
    (r.settle config name id).2.types = r.types.filter (·.1 ≠ name) := by
  unfold settle at h ⊢
  split at h
  · cases h
  · dsimp only at h ⊢
    split at h
    · rename_i back
      exact (rebuild_eq_ok back).1.trans (types_withdraw ..)
    · exact types_withdraw ..

theorem Sound.claim {r r' : Registry} {id : Option Nat} {name : String} (sound : r.Sound)
    (h : r.claim id name = .ok r') : r'.Sound := by
  obtain ⟨structs, enums, -, kept⟩ := claim_eq_ok h
  have types : r'.types = r.types := by simp [Registry.types, structs, enums]
  exact ⟨by rw [types]; exact sound.distinct,
    fun n i hi => kept i n (sound.owned n i (by rw [← types]; exact hi)),
    by rw [enums]; exact sound.enumNames⟩

/-! ## Declared types -/

end Registry

/-- A declared type. -/
inductive Declaration where
  | struct (decl : StructDecl)
  | enum (decl : EnumDecl)
  deriving DecidableEq, Repr

namespace Declaration

def naming : Declaration → Naming
  | struct decl => decl.naming
  | enum decl => decl.naming

def qualifiedName (d : Declaration) : String := d.naming.qualifiedName

/-- An enumeration needs members. -/
def Valid : Declaration → Prop
  | struct _ => True
  | enum decl => decl.members ≠ []

instance (d : Declaration) : Decidable d.Valid := by
  unfold Valid
  cases d <;> infer_instance

end Declaration

namespace Registry

section

variable {r r' : Registry} {config : Config} {id : Option Nat} {d : Declaration}

/-- Registers a type under an identifier or by name. -/
def register (r : Registry) (config : Config) (id : Option Nat) : Declaration → Outcome Unit
  | .struct decl => r.registerStruct config id decl
  | .enum decl => r.registerEnum config id decl

/-- Adds a type that was declared. -/
def join (r : Registry) (id : Option Nat) : Declaration → Registry
  | .struct decl => r.addStruct id decl
  | .enum decl => r.addEnum id decl

theorem types_join : (r.join id d).types.Perm ((d.qualifiedName, id) :: r.types) := by
  cases d
  · exact types_addStruct
  · exact types_addEnum

theorem ids_join : (r.join id d).ids = r.ids := by cases d <;> rfl

theorem enumNames_join (names : ∀ e ∈ r.enums, e.2.NamedBy e.1) :
    ∀ e ∈ (r.join id d).enums, e.2.NamedBy e.1 := by
  cases d with
  | struct decl => exact names
  | enum decl =>
    intro e he
    rcases List.mem_append.1 he with he | he
    · exact names e he
    · cases List.mem_singleton.1 he
      exact ⟨rfl, rfl⟩

/-- Nothing is built of a type that joins. -/
theorem everywhere_join {P : String → Option Nat → StructType → Prop} (before : r.Everywhere P) :
    (r.join id d).Everywhere P := by
  cases d with
  | struct decl =>
    intro e he s hs
    rcases List.mem_append.1 he with he | he
    · exact before e he s hs
    · cases List.mem_singleton.1 he
      cases hs
  | enum decl => exact before

/-- Joining a type of a new name that owns its identifier. -/
theorem Sound.join (sound : r.Sound) (fresh : r.contains d.qualifiedName = false)
    (known : ∀ n, id = some n → r.ids.owner? n = some d.qualifiedName) : (r.join id d).Sound := by
  refine ⟨?_, fun n i h => ?_, enumNames_join sound.enumNames⟩
  · refine (types_join.map _).nodup_iff.2 (List.nodup_cons.2 ⟨fun h => ?_, sound.distinct⟩)
    obtain ⟨x, hx, e⟩ := List.mem_map.1 h
    exact contains_eq_false_iff.1 fresh x hx e
  · rw [ids_join]
    rcases List.mem_cons.1 (types_join.mem_iff.1 h) with h | h
    · cases h
      exact known i rfl
    · exact sound.owned n i h

/-- A type of a new name joins and everything is built, once its identifier is claimed. -/
theorem register_of_claim (fresh : r.contains d.qualifiedName = false) (valid : d.Valid)
    (claimed : r.claim id d.qualifiedName = .ok r') :
    r.register config id d = (r'.join id d).settle config d.qualifiedName id := by
  cases d with
  | struct decl =>
    have fresh : r.contains decl.qualifiedName = false := fresh
    have claimed : r.claim id decl.qualifiedName = .ok r' := claimed
    simp only [register, registerStruct, fresh, claimed, Bool.false_eq_true, if_false]
    rfl
  | enum decl =>
    have fresh : r.contains decl.qualifiedName = false := fresh
    have claimed : r.claim id decl.qualifiedName = .ok r' := claimed
    have members : decl.members ≠ [] := valid
    simp only [register, registerEnum, fresh, claimed, members, Bool.false_eq_true, if_false]
    rfl

/-- A registration is refused at once, or a type of a new name joins. -/
theorem register_cases (r : Registry) (config : Config) (id : Option Nat) (d : Declaration) :
    (∃ e, r.register config id d = (.error e, r)) ∨
      r.contains d.qualifiedName = false ∧ d.Valid ∧ ∃ r', r.claim id d.qualifiedName = .ok r' := by
  cases known : r.contains d.qualifiedName with
  | true =>
    refine .inl ⟨.alreadyRegistered d.qualifiedName, ?_⟩
    cases d
    · exact if_pos known
    · exact if_pos known
  | false =>
    by_cases valid : d.Valid
    · cases claimed : r.claim id d.qualifiedName with
      | ok r' => exact .inr ⟨rfl, valid, r', rfl⟩
      | error e =>
        refine .inl ⟨e, ?_⟩
        cases d with
        | struct decl =>
          have known : r.contains decl.qualifiedName = false := known
          have claimed : r.claim id decl.qualifiedName = .error e := claimed
          simp only [register, registerStruct, known, claimed, Bool.false_eq_true, if_false]
        | enum decl =>
          have known : r.contains decl.qualifiedName = false := known
          have claimed : r.claim id decl.qualifiedName = .error e := claimed
          have members : decl.members ≠ [] := valid
          simp only [register, registerEnum, known, claimed, members, Bool.false_eq_true, if_false]
    · cases d with
      | struct decl => exact absurd trivial valid
      | enum decl =>
        have known : r.contains decl.qualifiedName = false := known
        have members : decl.members = [] := Decidable.not_not.1 valid
        refine .inl ⟨.noMembers decl.qualifiedName, ?_⟩
        simp only [register, registerEnum, known, members, Bool.false_eq_true, if_false, if_true]

end

/-! ## Every way to register -/

/-- What can be said of every way to register a type. -/
structure Registering (config : Config) (register : Registry → Option Nat → Outcome Unit) :
    Prop where
  sound : ∀ r id, r.Sound → (register r id).2.Sound
  everywhere : ∀ P, BuildsOnly config P → ∀ r id, r.Everywhere P → (register r id).2.Everywhere P
  types : ∀ r id, ∀ x ∈ (register r id).2.types, x ∈ r.types ∨ x.2 = id
  withdrawn : ∀ r id e, (register r id).1 = .error e →
    ∀ x ∈ (register r id).2.types, x ∈ r.types

theorem types_settle {r : Registry} {config : Config} {name : String} {id : Option Nat}
    {x : String × Option Nat} (h : x ∈ (r.settle config name id).2.types) : x ∈ r.types := by
  cases outcome : (r.settle config name id).1 with
  | error e =>
    rw [types_settle_error outcome] at h
    exact (List.mem_filter.1 h).1
  | ok =>
    unfold settle at h outcome
    split at h
    · rename_i built
      exact (rebuild_eq_ok built).1 ▸ h
    · rename_i failed
      simp only [failed] at outcome
      split at outcome <;> cases outcome

/-- A type of a new name is claimed for, joins, and everything is built. -/
theorem registering (config : Config) (d : Declaration) :
    Registering config fun r id => r.register config id d := by
  refine ⟨fun r id sound => ?_, fun P only r id before => ?_, fun r id x hx => ?_,
    fun r id e he x hx => ?_⟩
  all_goals rcases register_cases r config id d with ⟨e, same⟩ | ⟨fresh, valid, r', claimed⟩
  · rw [same]; exact sound
  · obtain ⟨structs, enums, known, -⟩ := claim_eq_ok claimed
    have fresh' : r'.contains d.qualifiedName = false := by simpa [contains, structs, enums] using fresh
    rw [register_of_claim fresh valid claimed]
    refine settle_sound ((sound.claim claimed).join fresh' known) fun n hn => ?_
    rw [ids_join]
    exact known n hn
  · rw [same]; exact before
  · obtain ⟨structs, -, -, -⟩ := claim_eq_ok claimed
    rw [register_of_claim fresh valid claimed]
    exact settle_everywhere only (everywhere_join (by rw [Everywhere, structs]; exact before))
  · rw [same] at hx; exact .inl hx
  · obtain ⟨structs, enums, -, -⟩ := claim_eq_ok claimed
    rw [register_of_claim fresh valid claimed] at hx
    rcases List.mem_cons.1 (types_join.mem_iff.1 (types_settle hx)) with h | h
    · exact .inr (by rw [h])
    · exact .inl (by simpa [Registry.types, structs, enums] using h)
  · rw [same] at hx; exact hx
  · obtain ⟨structs, enums, -, -⟩ := claim_eq_ok claimed
    rw [register_of_claim fresh valid claimed] at he hx
    rw [types_settle_error he] at hx
    obtain ⟨hx, ne⟩ := List.mem_filter.1 hx
    rcases List.mem_cons.1 (types_join.mem_iff.1 hx) with h | h
    · simp [h] at ne
    · simpa [Registry.types, structs, enums] using h

/-- A hashed identifier is only assigned while nothing owns it. -/
theorem assign_spec {t : IdTable} {n : Naming} (implicit : n.explicitId = none) :
    (∀ id owner, t.owner? id = some owner → (t.assign n).2.owner? id = some owner) ∧
      ∀ id, (t.assign n).1.id? = some id → t.owner? id = none := by
  simp only [IdTable.assign, implicit]
  split
  · simp [IdAssignment.id?]
  · rename_i free
    have free : t.owner? (hashedId n.idSource) = none := by simpa using free
    refine ⟨fun id owner h => ?_, fun id h => ?_⟩
    · have ne : (id == hashedId n.idSource) = false := by
        simp only [beq_eq_false_iff_ne]
        exact fun e => by simp [e, free] at h
      have claimed : t.claimFree (hashedId n.idSource) n.qualifiedName =
          ⟨(hashedId n.idSource, n.qualifiedName) :: t.entries⟩ := by simp [IdTable.claimFree, free]
      rw [claimed]
      simpa only [IdTable.owner?, List.lookup_cons, ne] using h
    · cases h
      exact free

theorem registerAuto_keeps {config : Config} (naming : Naming)
    {register : Registry → Option Nat → Outcome Unit} (registering : Registering config register)
    (r : Registry) :
    (r.Sound → (r.registerAuto naming register).2.Sound) ∧
      ∀ P, BuildsOnly config P → r.Everywhere P →
        (r.registerAuto naming register).2.Everywhere P := by
  unfold registerAuto
  split
  · exact ⟨registering.sound r _, fun P only => registering.everywhere P only r _⟩
  · rename_i implicit
    split
    · exact ⟨id, fun _ _ before => before⟩
    · obtain ⟨kept, unowned⟩ := assign_spec (t := r.ids) implicit
      generalize r.ids.assign naming = assigned at kept unowned ⊢
      obtain ⟨assignment, ids⟩ := assigned
      have claimed : r.Sound → ({ r with ids } : Registry).Sound := fun sound =>
        ⟨sound.distinct, fun n i h => kept i n (sound.owned n i h), sound.enumNames⟩
      have sound := fun s => registering.sound { r with ids } assignment.id? (claimed s)
      have everywhere := fun P only => registering.everywhere P only { r with ids } assignment.id?
      have withdrawn := registering.withdrawn { r with ids } assignment.id?
      dsimp only
      generalize register { r with ids } assignment.id? = outcome at sound everywhere withdrawn ⊢
      obtain ⟨result, r'⟩ := outcome
      cases result with
      | ok => exact ⟨sound, everywhere⟩
      | error e =>
        refine ⟨fun s => (sound s).release _ fun x hx n hn owns => ?_, fun P only before => ?_⟩
        · have known := s.owned x.1 n (by rw [← owns]; exact withdrawn e rfl x hx)
          rw [unowned n hn] at known
          cases known
        · have after := everywhere P only before
          cases h : assignment.id? <;> exact after

end Registry

end Graphwire
