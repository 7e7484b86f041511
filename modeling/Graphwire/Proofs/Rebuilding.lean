import Graphwire.Proofs.Reachable
import Graphwire.Proofs.Tables

/-!
# Building anew

What building depends on: the declarations and identifiers of the structs, the enumerations, and two
of the settings. What was built before plays no part, so building twice comes to building once.
-/

namespace Graphwire

set_option autoImplicit false

namespace Registry

variable {r r' : Registry} {config : Config}

/-- The registered structs: their names, declarations and identifiers. -/
def declarations (r : Registry) : List (String × StructDecl × Option Nat) :=
  r.structs.map fun e => (e.1, e.2.decl, e.2.id)

/-- The declaration of a struct, with its identifier. -/
def declared? (r : Registry) (name : String) : Option (StructDecl × Option Nat) :=
  r.declarations.lookup name

/-- Whether two registries declare the same types. -/
structure Agrees (r r' : Registry) : Prop where
  declared : ∀ name, r.declared? name = r'.declared? name
  enums : ∀ name, r.enum? name = r'.enum? name
  count : r.structs.length = r'.structs.length

/-! ## Building depends on what is declared -/

theorem declared?_eq (r : Registry) (name : String) :
    r.declared? name = (r.structs.lookup name).map fun entry => (entry.decl, entry.id) :=
  lookup_map (fun entry : StructEntry => (entry.decl, entry.id)) r.structs name

theorem map_lookup_decl (r : Registry) (name : String) :
    (r.structs.lookup name).map (·.decl) = (r.declared? name).map (·.1) := by
  simp [declared?_eq, Function.comp_def]

/-- What is known of a name comes from a struct, or else from an enumeration. -/
theorem lookup_eq_some_iff {compatible : Bool} {name : String} {info : NamedInfo} :
    r.lookup compatible name = some info ↔
      (∃ d, r.declared? name = some d ∧
        ⟨structKind d.2.isSome compatible, d.2.isSome, d.1.isAbstract⟩ = info) ∨
      r.declared? name = none ∧ ∃ e, r.enum? name = some e ∧ ⟨e.kind, e.id.isSome, false⟩ = info := by
  rw [declared?_eq]
  unfold lookup
  cases r.structs.lookup name <;> simp

theorem Agrees.of_declarations (declarations : r.declarations = r'.declarations)
    (enums : r.enums = r'.enums) : r.Agrees r' :=
  ⟨fun name => by rw [declared?, declared?, declarations],
    fun name => by rw [enum?, enum?, enums],
    by simpa [Registry.declarations] using congrArg List.length declarations⟩

theorem Agrees.lookup (agrees : r.Agrees r') (compatible : Bool) :
    r.lookup compatible = r'.lookup compatible := by
  funext name
  have declared := agrees.declared name
  have enums := agrees.enums name
  rw [declared?_eq, declared?_eq] at declared
  unfold Registry.lookup
  cases here : r.structs.lookup name <;> cases there : r'.structs.lookup name <;>
    simp_all

theorem Agrees.chain (agrees : r.Agrees r') (name : String) (decl : StructDecl) :
    r.chain name decl = r'.chain name decl := by
  unfold Registry.chain
  simp only [map_lookup_decl, agrees.declared, agrees.count]

theorem Agrees.checkFields (agrees : r.Agrees r') (owner : String) (compatible : Bool)
    (tags : List Int) (fields : List Field) :
    r.checkFields owner compatible tags fields = r'.checkFields owner compatible tags fields := by
  have ordinal : r.checkOrdinal = r'.checkOrdinal := by
    funext owner f
    simp only [Registry.checkOrdinal, agrees.enums]
  induction fields generalizing tags with
  | nil => rfl
  | cons f rest ih => simp only [Registry.checkFields, checkDefault, ordinal, ih]

/-- Building a struct depends on nothing that was built before. -/
theorem Agrees.build (agrees : r.Agrees r') (config : Config) (name : String)
    {e e' : StructEntry} (decl : e.decl = e'.decl) (id : e.id = e'.id) :
    r.build config name e = r'.build config name e' := by
  unfold Registry.build
  simp only [decl, id, agrees.chain, agrees.lookup, agrees.checkFields]

/-! ## Building everything -/

/-- What a declared struct is built into. -/
def BuildsTo (r : Registry) (config : Config) (d : String × StructDecl × Option Nat)
    (e : String × StructEntry) : Prop :=
  ∃ s, r.build config d.1 ⟨d.2.1, d.2.2, none⟩ = .ok s ∧ e = (d.1, ⟨d.2.1, d.2.2, some s⟩)

theorem Agrees.buildsTo (agrees : r.Agrees r') (config : Config) :
    r.BuildsTo config = r'.BuildsTo config := by
  funext d e
  unfold BuildsTo
  rw [agrees.build config d.1 rfl rfl]

theorem rebuild_eq_ok_iff :
    r.rebuild config = .ok r' ↔
      List.Forall₂ (r.BuildsTo config) r.declarations r'.structs ∧
        r'.enums = r.enums ∧ r'.ids = r.ids := by
  have refl : r.Agrees r := .of_declarations rfl rfl
  have entry : ∀ e e' : String × StructEntry, (do
      let built ← r.build config e.1 e.2
      return (e.1, { e.2 with built := some built }) : Except Error (String × StructEntry)) =
        .ok e' ↔ r.BuildsTo config (e.1, e.2.decl, e.2.id) e' := by
    intro e e'
    have same : r.build config e.1 ⟨e.2.decl, e.2.id, none⟩ = r.build config e.1 e.2 :=
      refl.build config e.1 rfl rfl
    rw [bind_eq_ok_iff, BuildsTo, same]
    constructor
    · rintro ⟨s, built, same⟩
      exact ⟨s, built, (pure_eq_ok_iff.1 same).symm⟩
    · rintro ⟨s, built, rfl⟩
      exact ⟨s, built, rfl⟩
  unfold rebuild
  rw [bind_eq_ok_iff]
  simp only [mapM_eq_ok_iff, entry, declarations, List.forall₂_map_left_iff]
  constructor
  · rintro ⟨structs, built, h⟩
    cases pure_eq_ok_iff.1 h
    exact ⟨built, rfl, rfl⟩
  · rintro ⟨built, enums, ids⟩
    refine ⟨_, built, pure_eq_ok_iff.2 ?_⟩
    rw [← enums, ← ids]

/-- Building starts from what is declared. -/
theorem rebuild_congr {built : Registry} (declarations : r.declarations = r'.declarations)
    (enums : r.enums = r'.enums) (ids : r.ids = r'.ids) (h : r.rebuild config = .ok built) :
    r'.rebuild config = .ok built := by
  obtain ⟨structs, sameEnums, sameIds⟩ := rebuild_eq_ok_iff.1 h
  rw [declarations, (Agrees.of_declarations declarations enums).buildsTo] at structs
  exact rebuild_eq_ok_iff.2 ⟨structs, sameEnums.trans enums, sameIds.trans ids⟩

theorem declarations_rebuild (h : r.rebuild config = .ok r') :
    r'.declarations = r.declarations := by
  obtain ⟨built, -, -⟩ := rebuild_eq_ok_iff.1 h
  show (r'.structs.map fun e => (e.1, e.2.decl, e.2.id)) = r.declarations
  generalize r.declarations = before, r'.structs = after at built
  induction built with
  | nil => rfl
  | cons first _ ih =>
    obtain ⟨s, -, rfl⟩ := first
    rw [List.map_cons, ih]

/-- Building twice comes to building once. -/
theorem rebuild_rebuild (h : r.rebuild config = .ok r') : r'.rebuild config = .ok r' := by
  obtain ⟨-, enums, ids⟩ := rebuild_eq_ok_iff.1 h
  exact rebuild_congr (declarations_rebuild h).symm enums.symm ids.symm h

/-- Everything can be built if every struct can. -/
theorem exists_rebuild_iff :
    (∃ r', r.rebuild config = .ok r') ↔
      ∀ d ∈ r.declarations, ∃ s, r.build config d.1 ⟨d.2.1, d.2.2, none⟩ = .ok s := by
  constructor
  · rintro ⟨r', h⟩ d member
    obtain ⟨built, -, -⟩ := rebuild_eq_ok_iff.1 h
    obtain ⟨i, lt, rfl⟩ := List.getElem_of_mem member
    obtain ⟨s, same, -⟩ := (List.forall₂_iff_get.1 built).2 i lt (by rwa [← built.length_eq])
    exact ⟨s, same⟩
  · intro every
    obtain ⟨structs, built⟩ := exists_forall₂ (R := r.BuildsTo config) fun d member =>
      (every d member).elim fun s same => ⟨_, s, same, rfl⟩
    exact ⟨{ r with structs }, rebuild_eq_ok_iff.2 ⟨built, rfl, rfl⟩⟩

/-- What is found after building. -/
theorem struct?_rebuild (h : r.rebuild config = .ok r') (name : String) :
    r'.struct? name = (r.declared? name).bind fun d =>
      (r.build config name ⟨d.1, d.2, none⟩).toOption := by
  obtain ⟨built, -, -⟩ := rebuild_eq_ok_iff.1 h
  unfold struct? declared?
  generalize r.declarations = before, r'.structs = after at built
  induction built with
  | nil => rfl
  | @cons d e _ _ first _ ih =>
    obtain ⟨s, same, rfl⟩ := first
    rw [List.lookup_cons, List.lookup_cons]
    cases eq : name == d.1 with
    | true => simp only [eq_of_beq eq, same, Option.bind_some, Except.toOption]
    | false => exact ih

/-- Of the settings, only two matter. -/
theorem rebuild_config {config' : Config} (compatible : config.compatible = config'.compatible)
    (trackRef : config.trackRef = config'.trackRef) : r.rebuild config = r.rebuild config' := by
  unfold rebuild build
  rw [compatible, trackRef]

/-- Who owns identifiers does not matter. -/
theorem rebuild_ids (r : Registry) (config : Config) (ids : IdTable) :
    { r with ids }.rebuild config = (fun r' => { r' with ids }) <$> r.rebuild config := by
  have agrees : { r with ids }.Agrees r := .of_declarations rfl rfl
  have same : { r with ids }.build config = r.build config := by
    funext name entry
    exact agrees.build config name rfl rfl
  unfold rebuild
  rw [same]
  cases r.structs.mapM (m := Except Error) _ <;> rfl

end Registry

end Graphwire
