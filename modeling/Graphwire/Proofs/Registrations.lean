import Graphwire.Proofs.Rebuilding

/-!
# Registrations that fail

A registration that fails leaves an instance as it was. A refused type has joined the registry and
owns its identifier by the time the structs are built anew, so the type and the identifier are taken
back; what is built after that is what was built before, since a reachable registry is settled. If
the settings are at fault, nothing can be built and the structs are the ones that were there.
-/

namespace Graphwire

set_option autoImplicit false

namespace Registry

variable {r r' : Registry} {config : Config} {id : Option Nat} {d : Declaration}

/-! ## Steps of a registration -/

/-- An identifier that is claimed was owned by the type already, or by none. -/
theorem claim_cases {name : String} (h : r.claim id name = .ok r') :
    (r' = r ∧ ∀ n, id = some n → r.ids.owner? n = some name) ∨
      ∃ n, id = some n ∧ r.ids.owner? n = none ∧
        r' = { r with ids := ⟨(n, name) :: r.ids.entries⟩ } := by
  cases id with
  | none =>
    cases h
    exact .inl ⟨rfl, fun _ absent => by cases absent⟩
  | some n =>
    simp only [claim, IdTable.claim] at h
    cases owner : r.ids.owner? n with
    | none =>
      simp only [owner] at h
      cases h
      exact .inr ⟨n, rfl, owner, rfl⟩
    | some holder =>
      by_cases same : holder = name
      · simp only [owner, same, if_true] at h
        cases h
        refine .inl ⟨rfl, fun m eq => ?_⟩
        cases eq
        rw [owner, same]
      · simp only [owner, same, if_false] at h
        cases h

/-- An identifier without owner can be released. -/
theorem release_of_free (free : ∀ n, id = some n → r.ids.owner? n = none) : r.release id = r := by
  cases id with
  | none => rfl
  | some n =>
    have apart : r.ids.release n = r.ids := by
      have free := List.lookup_eq_none_iff.1 (free n rfl)
      unfold IdTable.release
      rw [List.filter_eq_self.2 fun e member => ?_]
      have ne : n ≠ e.1 := by simpa using free e member
      simpa using ne.symm
    unfold release
    simp only [apart]

theorem release_cons (r : Registry) (n : Nat) (name : String) :
    { r with ids := ⟨(n, name) :: r.ids.entries⟩ }.release (some n) = r.release (some n) := by
  simp [release, IdTable.release]

theorem release_release (r : Registry) (id : Option Nat) :
    (r.release id).release id = r.release id := by
  cases id with
  | none => rfl
  | some n => simp [release, IdTable.release]

/-- Taking a type out again leaves its identifier without owner, and nothing else behind. -/
theorem withdraw_join (fresh : r.contains d.qualifiedName = false)
    (claimed : r.claim id d.qualifiedName = .ok r') :
    (r'.join id d).withdraw d.qualifiedName id = r.release id := by
  have apart := contains_eq_false_iff.1 fresh
  have structs : r.structs.filter (·.1 ≠ d.qualifiedName) = r.structs :=
    List.filter_eq_self.2 fun e member => by
      simpa using apart _ (mem_types_iff.2 (.inl ⟨e, member, rfl⟩))
  have enums : r.enums.filter (·.1 ≠ d.qualifiedName) = r.enums :=
    List.filter_eq_self.2 fun e member => by
      simpa using apart _ (mem_types_iff.2 (.inr ⟨e, member, rfl⟩))
  have out : ∀ r' : Registry, r'.structs = r.structs → r'.enums = r.enums →
      (r'.join id d).withdraw d.qualifiedName id = r'.release id := by
    intro r' sameStructs sameEnums
    cases d with
    | struct decl =>
      simp only [withdraw, join, addStruct, sameStructs, sameEnums, List.filter_append, structs,
        enums]
      simp [← sameStructs, ← sameEnums, StructDecl.qualifiedName, Declaration.qualifiedName,
        Declaration.naming]
    | enum decl =>
      simp only [withdraw, join, addEnum, sameStructs, sameEnums, List.filter_append, structs,
        enums]
      simp [← sameStructs, ← sameEnums, EnumDecl.qualifiedName, Declaration.qualifiedName,
        Declaration.naming]
  rcases claim_cases claimed with ⟨rfl, -⟩ | ⟨n, rfl, -, rfl⟩
  · exact out _ rfl rfl
  · exact (out { r with ids := ⟨(n, d.qualifiedName) :: r.ids.entries⟩ } rfl rfl).trans
      (release_cons r n d.qualifiedName)

/-! ## Settled registries -/

/-- Whether building anew changes nothing, if everything can be built at all. -/
def Settled (r : Registry) (config : Config) : Prop := ∀ r', r.rebuild config = .ok r' → r' = r

theorem settled_of_rebuild (h : r.rebuild config = .ok r') : r'.Settled config := by
  intro again built
  rw [rebuild_rebuild h] at built
  cases built
  rfl

theorem Settled.ids (settled : r.Settled config) (ids : IdTable) :
    { r with ids }.Settled config := by
  intro again h
  rw [rebuild_ids] at h
  obtain ⟨r', built, rfl⟩ := map_eq_ok_iff.1 h
  rw [settled r' built]

theorem Settled.release (settled : r.Settled config) (id : Option Nat) :
    (r.release id).Settled config := by
  cases id with
  | none => exact settled
  | some n => exact settled.ids _

/-- Failing to build after a type has joined restores a settled registry. -/
theorem settle_error {joined : Registry} {name : String} {e : Error}
    (back : (joined.withdraw name id).Settled config)
    (failed : (joined.settle config name id).1 = .error e) :
    (joined.settle config name id).2 = joined.withdraw name id := by
  unfold settle at failed ⊢
  split at failed
  · cases failed
  · dsimp only at failed ⊢
    split at failed
    · rename_i r' built
      exact back r' built
    · rfl

theorem settle_ok {joined : Registry} {name : String}
    (done : (joined.settle config name id).1 = .ok ()) :
    joined.rebuild config = .ok (joined.settle config name id).2 := by
  unfold settle at done ⊢
  split at done
  · rename_i r' built
    exact built
  · dsimp only at done
    split at done <;> cases done

/-- A registration that fails at most releases an identifier that the type could claim. -/
theorem register_error {e : Error} (settled : r.Settled config)
    (failed : (r.register config id d).1 = .error e) :
    (r.register config id d).2 = r ∨
      (r.register config id d).2 = r.release id ∧ r.contains d.qualifiedName = false ∧
        ∃ r', r.claim id d.qualifiedName = .ok r' := by
  rcases register_cases r config id d with ⟨e', same⟩ | ⟨fresh, valid, r', claimed⟩
  · exact .inl (congrArg Prod.snd same)
  · have back := withdraw_join fresh claimed
    rw [register_of_claim fresh valid claimed] at failed ⊢
    refine .inr ⟨?_, fresh, r', claimed⟩
    rw [settle_error (back ▸ settled.release id) failed, back]

/-- A registration that succeeds was of a new name, and built everything. -/
theorem register_ok (done : (r.register config id d).1 = .ok ()) :
    r.contains d.qualifiedName = false ∧ d.Valid ∧ ∃ r', r.claim id d.qualifiedName = .ok r' ∧
      (r'.join id d).rebuild config = .ok (r.register config id d).2 := by
  rcases register_cases r config id d with ⟨e, same⟩ | ⟨fresh, valid, r', claimed⟩
  · rw [same] at done
    cases done
  · refine ⟨fresh, valid, r', claimed, ?_⟩
    rw [register_of_claim fresh valid claimed] at done ⊢
    exact settle_ok done

/-! ## Owners -/

/-- Whether every identifier that is owned belongs to a registered type. -/
def Claimed (r : Registry) : Prop :=
  ∀ n owner, r.ids.owner? n = some owner → (owner, some n) ∈ r.types

theorem Claimed.free (claimed : r.Claimed) {name : String} (fresh : r.contains name = false)
    (h : r.claim id name = .ok r') : ∀ n, id = some n → r.ids.owner? n = none := by
  rcases claim_cases h with ⟨-, owned⟩ | ⟨n, rfl, free, -⟩
  · intro n same
    exact absurd rfl (contains_eq_false_iff.1 fresh _ (claimed n name (owned n same)))
  · intro m same
    cases same
    exact free

/-- Only the new type may own an identifier that it did not have. -/
theorem claimed_register
    (before : ∀ n owner, r.ids.owner? n = some owner →
      (owner, some n) ∈ (d.qualifiedName, id) :: r.types)
    (done : (r.register config id d).1 = .ok ()) : (r.register config id d).2.Claimed := by
  obtain ⟨-, -, r', claimed, built⟩ := register_ok done
  obtain ⟨types, ids, -⟩ := rebuild_eq_ok built
  intro n owner owned
  rw [ids, ids_join] at owned
  rw [types, types_join.mem_iff]
  rcases claim_cases claimed with ⟨rfl, -⟩ | ⟨m, rfl, -, rfl⟩
  · exact before n owner owned
  · simp only [IdTable.owner?, List.lookup_cons] at owned
    split at owned
    · rename_i same
      cases owned
      rw [eq_of_beq same]
      exact List.mem_cons_self
    · exact before n owner owned

/-- Assigning gives no other type an identifier. -/
theorem owner?_assign {t : IdTable} {naming : Naming} (implicit : naming.explicitId = none) {n : Nat}
    {owner : String} (owned : (t.assign naming).2.owner? n = some owner) :
    t.owner? n = some owner ∨
      owner = naming.qualifiedName ∧ (t.assign naming).1.id? = some n := by
  cases holder : t.owner? (hashedId naming.idSource) with
  | some other =>
    simp only [IdTable.assign, implicit, holder, Option.isSome_some, if_true] at owned
    exact .inl owned
  | none =>
    simp only [IdTable.assign, IdTable.claimFree, implicit, holder, Option.isSome_none,
      Bool.false_eq_true, if_false, IdAssignment.id?] at owned ⊢
    simp only [IdTable.owner?, List.lookup_cons] at owned
    split at owned
    · rename_i same
      cases owned
      exact .inr ⟨rfl, congrArg some (eq_of_beq same).symm⟩
    · exact .inl owned

/-! ## Nothing changes -/

theorem register_error_eq {e : Error} (settled : r.Settled config) (claimed : r.Claimed)
    (failed : (r.register config id d).1 = .error e) : (r.register config id d).2 = r := by
  rcases register_error settled failed with same | ⟨same, fresh, r', h⟩
  · exact same
  · rw [same, release_of_free (claimed.free fresh h)]

/-- Releasing the identifier that was assigned undoes the assignment. -/
theorem release_assign {naming : Naming} (implicit : naming.explicitId = none) :
    { r with ids := (r.ids.assign naming).2 }.release (r.ids.assign naming).1.id? = r := by
  cases owner : r.ids.owner? (hashedId naming.idSource) with
  | some holder =>
    simp only [IdTable.assign, implicit, owner, Option.isSome_some, if_true]
    rfl
  | none =>
    simp only [IdTable.assign, IdTable.claimFree, implicit, owner, Option.isSome_none,
      Bool.false_eq_true, if_false, IdAssignment.id?, release_cons]
    refine release_of_free fun n same => ?_
    cases same
    exact owner

/-- The identifier that a naming gives is assigned before and released after a failure. -/
theorem registerAuto_error_eq {e : Error} (settled : r.Settled config) (claimed : r.Claimed)
    (failed : (r.registerAuto d.naming fun r id => r.register config id d).1 = .error e) :
    (r.registerAuto d.naming fun r id => r.register config id d).2 = r := by
  unfold registerAuto at failed ⊢
  cases given : d.naming.explicitId with
  | some n =>
    simp only [given] at failed ⊢
    cases outcome : (r.register config (some n) d).1 with
    | error e' => exact register_error_eq settled claimed outcome
    | ok => simp [outcome, Except.map] at failed
  | none =>
    simp only [given] at failed ⊢
    cases known : r.contains d.naming.qualifiedName with
    | true => simp only [if_true]
    | false =>
      simp only [known, Bool.false_eq_true, if_false] at failed ⊢
      have back := release_assign (r := r) given
      generalize r.ids.assign d.naming = assigned at back failed ⊢
      obtain ⟨assignment, ids⟩ := assigned
      have left : ∀ e', ({ r with ids }.register config assignment.id? d).1 = .error e' → _ :=
        fun e' => register_error (settled.ids ids)
      dsimp only at back failed ⊢
      generalize { r with ids }.register config assignment.id? d = outcome at left failed ⊢
      obtain ⟨_ | _, r'⟩ := outcome
      · rename_i e'
        rcases left e' rfl with rfl | ⟨rfl, -⟩
        · exact back
        · exact (release_release ..).trans back
      · cases failed

/-- What succeeds is a registration under the identifier that the naming gives. -/
theorem registerAuto_ok {a : IdAssignment}
    (done : (r.registerAuto d.naming fun r id => r.register config id d).1 = .ok a) :
    a = (r.ids.assign d.naming).1 ∧ ∃ ids : IdTable,
      (ids = r.ids ∨ d.naming.explicitId = none ∧ ids = (r.ids.assign d.naming).2) ∧
      ({ r with ids }.register config a.id? d).1 = .ok () ∧
      (r.registerAuto d.naming fun r id => r.register config id d).2 =
        ({ r with ids }.register config a.id? d).2 := by
  unfold registerAuto at done ⊢
  cases given : d.naming.explicitId with
  | some n =>
    simp only [given] at done ⊢
    obtain ⟨_, success, rfl⟩ := map_eq_ok_iff.1 done
    exact ⟨by simp only [IdTable.assign, given], r.ids, .inl rfl, success, rfl⟩
  | none =>
    simp only [given] at done ⊢
    cases known : r.contains d.naming.qualifiedName with
    | true =>
      simp only [known, if_true] at done
      cases done
    | false =>
      simp only [known, Bool.false_eq_true, if_false] at done ⊢
      cases outcome : { r with ids := (r.ids.assign d.naming).2 }.register config
          (r.ids.assign d.naming).1.id? d with
      | mk result after =>
        simp only [outcome] at done ⊢
        cases result with
        | error e => cases done
        | ok =>
          cases done
          exact ⟨rfl, _, .inr ⟨trivial, rfl⟩, by rw [outcome], by rw [outcome]⟩

/-- What a registration leaves: a settled registry in which every owner is registered. -/
structure Consistent (r : Registry) (config : Config) : Prop where
  settled : r.Settled config
  claimed : r.Claimed

theorem Consistent.register (consistent : r.Consistent config) (id : Option Nat)
    (d : Declaration) : (r.register config id d).2.Consistent config := by
  cases outcome : (r.register config id d).1 with
  | error e => rwa [register_error_eq consistent.settled consistent.claimed outcome]
  | ok =>
    obtain ⟨-, -, r', -, built⟩ := register_ok outcome
    exact ⟨settled_of_rebuild built, claimed_register
      (fun n owner owned => List.mem_cons_of_mem _ (consistent.claimed n owner owned)) outcome⟩

theorem Consistent.registerAuto (consistent : r.Consistent config) (d : Declaration) :
    (r.registerAuto d.naming fun r id => r.register config id d).2.Consistent config := by
  cases outcome : (r.registerAuto d.naming fun r id => r.register config id d).1 with
  | error e => rwa [registerAuto_error_eq consistent.settled consistent.claimed outcome]
  | ok a =>
    obtain ⟨assigned, ids, owners, done, same⟩ := registerAuto_ok outcome
    obtain ⟨-, -, _, -, built⟩ := register_ok done
    rw [same]
    refine ⟨settled_of_rebuild built, claimed_register (fun n owner owned => ?_) done⟩
    rcases owners with rfl | ⟨implicit, rfl⟩
    · exact List.mem_cons_of_mem _ (consistent.claimed n owner owned)
    · rcases owner?_assign implicit owned with old | ⟨rfl, new⟩
      · exact List.mem_cons_of_mem _ (consistent.claimed n owner old)
      · rw [assigned, new]
        exact List.mem_cons_self

/-- A registration changes nothing, or leaves what was built anew. -/
theorem Consistent.register_cases (consistent : r.Consistent config) (id : Option Nat)
    (d : Declaration) : (r.register config id d).2 = r ∨
      (r.register config id d).2.rebuild config = .ok (r.register config id d).2 := by
  cases outcome : (r.register config id d).1 with
  | error e => exact .inl (register_error_eq consistent.settled consistent.claimed outcome)
  | ok =>
    obtain ⟨-, -, _, -, built⟩ := register_ok outcome
    exact .inr (rebuild_rebuild built)

theorem Consistent.registerAuto_cases (consistent : r.Consistent config) (d : Declaration) :
    (r.registerAuto d.naming fun r id => r.register config id d).2 = r ∨
      (r.registerAuto d.naming fun r id => r.register config id d).2.rebuild config =
        .ok (r.registerAuto d.naming fun r id => r.register config id d).2 := by
  cases outcome : (r.registerAuto d.naming fun r id => r.register config id d).1 with
  | error e => exact .inl (registerAuto_error_eq consistent.settled consistent.claimed outcome)
  | ok a =>
    obtain ⟨-, ids, -, done, same⟩ := registerAuto_ok outcome
    obtain ⟨-, -, _, -, built⟩ := register_ok done
    rw [same]
    exact .inr (rebuild_rebuild built)

end Registry

/-! ## Instances -/

namespace Instance

/-- Registers a type under an identifier or by name. -/
def register (i : Instance) (id : Option Nat) : Declaration → Except Error Unit × Instance
  | .struct decl => i.registerStruct id decl
  | .enum decl => i.registerEnum id decl

/-- Registers a type under the identifier that its naming gives. -/
def registerAuto (i : Instance) : Declaration → Except Error IdAssignment × Instance
  | .struct decl => i.registerStructAuto decl
  | .enum decl => i.registerEnumAuto decl

theorem register_eq (i : Instance) (id : Option Nat) (d : Declaration) :
    i.register id d = i.settle (i.registry.register i.config id d) := by
  cases d <;> rfl

theorem registerAuto_eq (i : Instance) (d : Declaration) :
    i.registerAuto d =
      i.settle (i.registry.registerAuto d.naming fun r id => r.register i.config id d) := by
  cases d <;> rfl

/-- A failed registration of an instance changes nothing if its registry does not change. -/
theorem settle_error {α : Type} {i : Instance} {outcome : Registry.Outcome α} {e : Error}
    (failed : (i.settle outcome).1 = .error e)
    (same : ∀ e, outcome.1 = .error e → outcome.2 = i.registry) : (i.settle outcome).2 = i := by
  obtain ⟨_ | _, registry⟩ := outcome
  · cases same _ rfl
    rfl
  · cases failed

theorem consistent_reconfigure {i : Instance} (claimed : i.registry.Claimed) (config : Config) :
    (i.reconfigure config).registry.Consistent (i.reconfigure config).config := by
  unfold reconfigure
  cases built : i.registry.rebuild config with
  | error e =>
    refine ⟨fun r' h => ?_, claimed⟩
    rw [built] at h
    cases h
  | ok r' =>
    obtain ⟨types, ids, -⟩ := Registry.rebuild_eq_ok built
    exact ⟨Registry.settled_of_rebuild built, by rwa [Registry.Claimed, types, ids]⟩

theorem consistent_perform {i : Instance} (consistent : i.registry.Consistent i.config)
    (action : Action) : (i.perform action).registry.Consistent (i.perform action).config := by
  have kept : ∀ {α : Type} (outcome : Registry.Outcome α), outcome.2.Consistent i.config →
      (i.settle outcome).2.registry.Consistent (i.settle outcome).2.config := by
    intro α outcome h
    obtain ⟨registry, config, -⟩ := i.settle_registry outcome
    rwa [registry, config]
  cases action with
  | setCompatible | setTrackRef => exact consistent_reconfigure consistent.claimed _
  | setMaxDepth | setLimits | setRequireRegistration | setStrategy =>
    exact ⟨fun r' h => consistent.settled r' (by rwa [Registry.rebuild_config] <;> rfl),
      consistent.claimed⟩
  | registerStruct id decl => exact kept _ (consistent.register id (.struct decl))
  | registerEnum id decl => exact kept _ (consistent.register id (.enum decl))
  | registerStructAuto decl => exact kept _ (consistent.registerAuto (.struct decl))
  | registerEnumAuto decl => exact kept _ (consistent.registerAuto (.enum decl))
  | deserialize bytes =>
    obtain ⟨cache, same⟩ := i.deserialize_instance bytes
    exact (congrArg (fun j : Instance => j.registry.Consistent j.config) same).mpr consistent

theorem Reachable.consistent {i : Instance} (reachable : i.Reachable) :
    i.registry.Consistent i.config := by
  refine reachable.induct (P := fun i => i.registry.Consistent i.config) ⟨?_, ?_⟩
    fun _ action consistent => consistent_perform consistent action
  · intro r' h
    cases h
    rfl
  · intro n owner owned
    cases owned

/-- Whether building the types of an instance anew gives what it has: for some settings, which are its
own unless these are at fault. -/
structure Assembled (i : Instance) : Prop where
  somehow : ∃ config, i.registry.rebuild config = .ok i.registry
  sane : i.fault = none → i.registry.rebuild i.config = .ok i.registry

theorem assembled_reconfigure {i : Instance} (assembled : i.Assembled) (config : Config) :
    (i.reconfigure config).Assembled := by
  unfold reconfigure
  cases built : i.registry.rebuild config with
  | error e => exact ⟨assembled.somehow, fun sane => by cases sane⟩
  | ok r' =>
    have again := Registry.rebuild_rebuild built
    exact ⟨⟨config, again⟩, fun _ => again⟩

theorem assembled_settle {α : Type} {i : Instance} (assembled : i.Assembled)
    {outcome : Registry.Outcome α}
    (cases : outcome.2 = i.registry ∨ outcome.2.rebuild i.config = .ok outcome.2) :
    (i.settle outcome).2.Assembled := by
  obtain ⟨registry, config, fault⟩ := i.settle_registry outcome
  rcases cases with same | built
  · exact ⟨by rw [registry, same]; exact assembled.somehow,
      by rw [registry, config, fault, same]; exact assembled.sane⟩
  · exact ⟨⟨i.config, by rw [registry]; exact built⟩, fun _ => by rw [registry, config]; exact built⟩

theorem assembled_perform {i : Instance} (consistent : i.registry.Consistent i.config)
    (assembled : i.Assembled) (action : Action) : (i.perform action).Assembled := by
  cases action with
  | setCompatible | setTrackRef => exact assembled_reconfigure assembled _
  | setMaxDepth | setLimits | setRequireRegistration | setStrategy =>
    exact ⟨assembled.somehow, fun sane =>
      (Registry.rebuild_config rfl rfl).trans (assembled.sane sane)⟩
  | registerStruct id decl =>
    exact assembled_settle assembled (consistent.register_cases id (.struct decl))
  | registerEnum id decl =>
    exact assembled_settle assembled (consistent.register_cases id (.enum decl))
  | registerStructAuto decl =>
    exact assembled_settle assembled (consistent.registerAuto_cases (.struct decl))
  | registerEnumAuto decl =>
    exact assembled_settle assembled (consistent.registerAuto_cases (.enum decl))
  | deserialize bytes =>
    obtain ⟨cache, same⟩ := i.deserialize_instance bytes
    exact (congrArg Assembled same).mpr ⟨assembled.somehow, assembled.sane⟩

/-- The types of a reachable instance are built of what it declares. -/
theorem Reachable.assembled {i : Instance} (reachable : i.Reachable) : i.Assembled :=
  (reachable.induct (P := fun i => i.registry.Consistent i.config ∧ i.Assembled)
    ⟨(show fresh.Reachable from ⟨[], rfl⟩).consistent, ⟨.standard, rfl⟩, fun _ => rfl⟩
    fun _ action h => ⟨consistent_perform h.1 action, assembled_perform h.1 h.2 action⟩).2

/-- A registered struct is what is built of its declaration. -/
theorem Assembled.build {i : Instance} (assembled : i.Assembled) {name : String} {s : StructType}
    (found : i.registry.struct? name = some s) :
    ∃ config d, (i.fault = none → config = i.config) ∧ i.registry.declared? name = some d ∧
      i.registry.build config name ⟨d.1, d.2, none⟩ = .ok s := by
  obtain ⟨config, own, built⟩ : ∃ config, (i.fault = none → config = i.config) ∧
      i.registry.rebuild config = .ok i.registry := by
    by_cases sane : i.fault = none
    · exact ⟨i.config, fun _ => rfl, assembled.sane sane⟩
    · obtain ⟨config, built⟩ := assembled.somehow
      exact ⟨config, fun h => absurd h sane, built⟩
  rw [Registry.struct?_rebuild built] at found
  obtain ⟨d, declared, made⟩ := Option.bind_eq_some_iff.1 found
  refine ⟨config, d, own, declared, ?_⟩
  cases outcome : i.registry.build config name ⟨d.1, d.2, none⟩ with
  | ok t =>
    rw [outcome] at made
    cases made
    rfl
  | error e =>
    rw [outcome] at made
    cases made

/-- A registration that fails leaves everything as it was: types, owners of identifiers, what was
built, and definitions that were received. -/
theorem Reachable.eq_of_register_error {i : Instance} (reachable : i.Reachable) (d : Declaration) :
    (∀ id e, (i.register id d).1 = .error e → (i.register id d).2 = i) ∧
      ∀ e, (i.registerAuto d).1 = .error e → (i.registerAuto d).2 = i := by
  obtain ⟨settled, claimed⟩ := reachable.consistent
  refine ⟨fun id e failed => ?_, fun e failed => ?_⟩
  · rw [register_eq] at failed ⊢
    exact settle_error failed fun _ => Registry.register_error_eq settled claimed
  · rw [registerAuto_eq] at failed ⊢
    exact settle_error failed fun _ => Registry.registerAuto_error_eq settled claimed

/-- A struct with a part whose type is not registered yet. -/
def whole : StructDecl :=
  { naming := .ofNames "demo" "Whole", parent := none, isAbstract := false,
    fields := [.ofShape "part" (.named "demo.Part")] }

/-- The struct that the part refers to. -/
def part : StructDecl :=
  { naming := .ofNames "demo" "Part", parent := none, isAbstract := false, fields := [] }

/-- A compatible instance that knows the whole only. -/
def withWhole : Instance := ((fresh.setCompatible true).registerStruct (some 1) whole).2

/-- The part is refused because the whole has no default for it, and the whole stays. -/
theorem withWhole_refuses_part :
    withWhole.Reachable ∧ withWhole.registry.types = [("demo.Whole", some 1)] ∧
      (withWhole.register (some 2) (.struct part)).1 =
        .error (.defaultRequired "part" "demo.Whole") ∧
      (withWhole.register (some 2) (.struct part)).2 = withWhole ∧
      (withWhole.registerAuto (.struct part)).1 = .error (.defaultRequired "part" "demo.Whole") ∧
      (withWhole.registerAuto (.struct part)).2 = withWhole := by
  have reachable : withWhole.Reachable :=
    ⟨[.setCompatible true, .registerStruct (some 1) whole], rfl⟩
  have refused : (withWhole.register (some 2) (.struct part)).1 =
      .error (.defaultRequired "part" "demo.Whole") := by decide +kernel
  have refusedAuto : (withWhole.registerAuto (.struct part)).1 =
      .error (.defaultRequired "part" "demo.Whole") := by decide +kernel
  exact ⟨reachable, by decide +kernel, refused,
    (reachable.eq_of_register_error (.struct part)).1 _ _ refused, refusedAuto,
    (reachable.eq_of_register_error (.struct part)).2 _ refusedAuto⟩

end Instance

end Graphwire
