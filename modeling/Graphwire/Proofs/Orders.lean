import Graphwire.Proofs.Registrations
import Graphwire.Proofs.Subregistries
import Mathlib.Data.List.Induction
import Mathlib.Data.List.Nodup
import Mathlib.Data.List.Perm.Subperm

/-!
# Orders of registration

Types that are registered one after the other end up the same in every order that puts parents before
children. What is registered in the end decides what everything is built into, and what can be built
in the end can be built after every part of the registrations, so no order is refused.
-/

namespace Graphwire

set_option autoImplicit false

/-- A type with the identifier that it is registered under, unless that is its name. -/
structure Enrolment where
  id : Option Nat
  type : Declaration
  deriving DecidableEq, Repr

/-- The struct that a type extends. -/
def Declaration.parent? : Declaration → Option String
  | struct decl => decl.parent
  | enum _ => none

namespace Enrolment

def name (x : Enrolment) : String := x.type.qualifiedName

/-- The struct that is registered, if it is one. -/
def struct? (x : Enrolment) : Option (String × StructDecl × Option Nat) :=
  match x.type with
  | .struct decl => some (x.name, decl, x.id)
  | .enum _ => none

/-- The enumeration that is registered, if it is one. -/
def enum? (x : Enrolment) : Option (String × EnumType) :=
  match x.type with
  | .struct _ => none
  | .enum decl => some (x.name, .ofDecl x.id decl)

/-- The identifier that the type owns, if it has one. -/
def owned? (x : Enrolment) : Option (Nat × String) := x.id.map fun n => (n, x.name)

/-- What enrolments need so that every one is of a new name, with an identifier that is free. -/
structure Admissible (regs : List Enrolment) : Prop where
  names : (regs.map name).Nodup
  ids : (regs.filterMap (·.id)).Nodup
  valid : ∀ x ∈ regs, x.type.Valid

/-- Whether no type comes before a struct that it extends. -/
def ParentsFirst (regs : List Enrolment) : Prop :=
  regs.Pairwise fun earlier later => earlier.type.parent? ≠ some later.name

theorem Admissible.perm {regs regs' : List Enrolment} (perm : regs.Perm regs')
    (h : Admissible regs) : Admissible regs' :=
  ⟨(perm.map _).nodup_iff.1 h.names, (perm.filterMap _).nodup_iff.1 h.ids,
    fun x member => h.valid x (perm.mem_iff.2 member)⟩

theorem Admissible.sublist {regs regs' : List Enrolment} (sub : regs.Sublist regs')
    (h : Admissible regs') : Admissible regs :=
  ⟨h.names.sublist (sub.map _), h.ids.sublist (sub.filterMap _),
    fun x member => h.valid x (sub.subset member)⟩

/-- A name belongs to one enrolment. -/
theorem Admissible.eq_of_name {regs : List Enrolment} (h : Admissible regs) {x y : Enrolment}
    (hx : x ∈ regs) (hy : y ∈ regs) (same : x.name = y.name) : x = y :=
  List.inj_on_of_nodup_map h.names hx hy same

theorem struct?_name {x : Enrolment} {d : String × StructDecl × Option Nat}
    (h : x.struct? = some d) : d.1 = x.name := by
  unfold struct? at h
  split at h <;> cases h
  rfl

theorem enum?_name {x : Enrolment} {e : String × EnumType} (h : x.enum? = some e) :
    e.1 = x.name := by
  unfold enum? at h
  split at h <;> cases h
  rfl

theorem struct?_or_enum? {x : Enrolment} {d : String × StructDecl × Option Nat}
    (h : x.struct? = some d) : x.enum? = none := by
  unfold struct? at h
  unfold enum?
  split at h <;> simp_all

theorem parent?_of_struct? {x : Enrolment} {d : String × StructDecl × Option Nat}
    (h : x.struct? = some d) : x.type.parent? = d.2.1.parent := by
  unfold struct? at h
  split at h
  · rename_i type
    cases h
    rw [type]
    rfl
  · cases h

/-- A parent that is enrolled at all is enrolled before. -/
theorem ParentsFirst.mem_of_parent {regs first : List Enrolment} {last parent : Enrolment}
    (order : ParentsFirst regs) (sub : first ++ [last] <+: regs) (enrolled : parent ∈ regs)
    (above : last.type.parent? = some parent.name) (other : parent.name ≠ last.name) :
    parent ∈ first := by
  obtain ⟨rest, rfl⟩ := sub
  rcases List.mem_append.1 enrolled with before | after
  · rcases List.mem_append.1 before with old | self
    · exact old
    · exact absurd (congrArg name (List.mem_singleton.1 self)) other
  · exact absurd above ((List.pairwise_append.1 order).2.2 last (by simp) parent after)

/-- The keys of what is picked from enrolments are names of enrolments. -/
theorem keys_filterMap {α : Type} {pick : Enrolment → Option (String × α)}
    (named : ∀ x d, pick x = some d → d.1 = x.name) (regs : List Enrolment) :
    ((regs.filterMap pick).map (·.1)).Sublist (regs.map name) := by
  induction regs with
  | nil => exact .slnil
  | cons x regs ih =>
    cases picked : pick x with
    | none =>
      rw [List.filterMap_cons_none picked]
      exact ih.cons _
    | some d =>
      rw [List.filterMap_cons_some picked, List.map_cons, named x d picked]
      exact ih.cons_cons _

end Enrolment

theorem filterMap_concat {α β : Type} (f : α → Option β) (items : List α) (a : α) :
    (items ++ [a]).filterMap f = items.filterMap f ++ (f a).toList := by
  rw [List.filterMap_append]
  cases picked : f a <;> simp [picked]

namespace Registry

variable {config : Config} {regs : List Enrolment}

/-! ## Enrolled types -/

/-- The registry of enrolled types, none of which is built. -/
def declaring (regs : List Enrolment) : Registry :=
  { structs := (regs.filterMap Enrolment.struct?).map fun d => (d.1, ⟨d.2.1, d.2.2, none⟩)
    enums := regs.filterMap Enrolment.enum?
    ids := ⟨(regs.filterMap Enrolment.owned?).reverse⟩ }

theorem declarations_declaring :
    (declaring regs).declarations = regs.filterMap Enrolment.struct? := by
  simp [declarations, declaring, Function.comp_def]

theorem count_declaring :
    (declaring regs).structs.length = (regs.filterMap Enrolment.struct?).length := by
  simp [declaring]

theorem declared?_declaring (admissible : Enrolment.Admissible regs) {name : String}
    {d : StructDecl × Option Nat} :
    (declaring regs).declared? name = some d ↔ ∃ x ∈ regs, x.struct? = some (name, d) := by
  have keys := admissible.names.sublist
    (Enrolment.keys_filterMap (fun _ _ => Enrolment.struct?_name) regs)
  rw [declared?, declarations_declaring, lookup_eq_some_iff_mem keys, List.mem_filterMap]

theorem enum?_declaring (admissible : Enrolment.Admissible regs) {name : String} {e : EnumType} :
    (declaring regs).enum? name = some e ↔ ∃ x ∈ regs, x.enum? = some (name, e) := by
  have keys := admissible.names.sublist
    (Enrolment.keys_filterMap (fun _ _ => Enrolment.enum?_name) regs)
  exact (lookup_eq_some_iff_mem keys).trans List.mem_filterMap

theorem owner?_declaring (admissible : Enrolment.Admissible regs) {n : Nat} {owner : String} :
    (declaring regs).ids.owner? n = some owner ↔ ∃ x ∈ regs, x.id = some n ∧ x.name = owner := by
  have keys : ((regs.filterMap Enrolment.owned?).reverse.map (·.1)).Nodup := by
    have same : (regs.filterMap Enrolment.owned?).map (·.1) = regs.filterMap (·.id) := by
      rw [List.map_filterMap]
      refine List.filterMap_congr fun x _ => ?_
      simp [Enrolment.owned?, Function.comp_def]
    rw [List.map_reverse, same, List.nodup_reverse]
    exact admissible.ids
  refine (lookup_eq_some_iff_mem keys).trans ?_
  simp [Enrolment.owned?]

theorem mem_types_declaring {t : String × Option Nat} :
    t ∈ (declaring regs).types ↔ ∃ x ∈ regs, (x.name, x.id) = t := by
  simp only [mem_types_iff, declaring, List.mem_map, List.mem_filterMap]
  constructor
  · rintro (⟨_, ⟨d, ⟨x, member, struct⟩, rfl⟩, rfl⟩ | ⟨e, ⟨x, member, enum⟩, rfl⟩)
    · refine ⟨x, member, ?_⟩
      unfold Enrolment.struct? at struct
      split at struct <;> cases struct
      rfl
    · refine ⟨x, member, ?_⟩
      unfold Enrolment.enum? at enum
      split at enum <;> cases enum
      rfl
  · rintro ⟨x, member, rfl⟩
    cases type : x.type with
    | struct decl =>
      exact .inl ⟨_, ⟨(x.name, decl, x.id), ⟨x, member, by rw [Enrolment.struct?, type]⟩, rfl⟩, rfl⟩
    | enum decl =>
      exact .inr ⟨(x.name, .ofDecl x.id decl), ⟨x, member, by rw [Enrolment.enum?, type]⟩, rfl⟩

/-! ## One registration more -/

section

variable {r r' : Registry} {x : Enrolment}

theorem contains_declaring {name : String} :
    (declaring regs).contains name = false ↔ name ∉ regs.map Enrolment.name := by
  rw [contains_eq_false_iff]
  simp only [mem_types_declaring, List.mem_map, not_exists, not_and]
  constructor
  · exact fun apart x member => apart _ ⟨x, member, rfl⟩
  · rintro apart _ ⟨x, member, rfl⟩
    exact apart x member

/-- One more enrolment is of a new name, with an identifier that is free. -/
theorem admissible_concat :
    Enrolment.Admissible (regs ++ [x]) ↔ Enrolment.Admissible regs ∧
      x.name ∉ regs.map Enrolment.name ∧ (∀ n, x.id = some n → n ∉ regs.filterMap (·.id)) ∧
      x.type.Valid := by
  have names : ((regs ++ [x]).map Enrolment.name).Nodup ↔
      (regs.map Enrolment.name).Nodup ∧ x.name ∉ regs.map Enrolment.name := by
    rw [List.map_append, List.map_singleton, List.nodup_append_comm]
    exact List.nodup_cons.trans and_comm
  have ids : ((regs ++ [x]).filterMap (·.id)).Nodup ↔
      (regs.filterMap (·.id)).Nodup ∧ ∀ n, x.id = some n → n ∉ regs.filterMap (·.id) := by
    rw [filterMap_concat, List.nodup_append_comm]
    cases x.id with
    | none => simp
    | some n =>
      simp only [Option.toList_some, Option.some.injEq, forall_eq']
      exact List.nodup_cons.trans and_comm
  constructor
  · rintro ⟨n, i, v⟩
    exact ⟨⟨(names.1 n).1, (ids.1 i).1, fun y member => v y (List.mem_append_left _ member)⟩,
      (names.1 n).2, (ids.1 i).2, v x (by simp)⟩
  · rintro ⟨⟨n, i, v⟩, name, id, valid⟩
    refine ⟨names.2 ⟨n, name⟩, ids.2 ⟨i, id⟩, fun y member => ?_⟩
    rcases List.mem_append.1 member with old | new
    · exact v y old
    · rwa [List.mem_singleton.1 new]

theorem declarations_join (r : Registry) (x : Enrolment) :
    (r.join x.id x.type).declarations = r.declarations ++ x.struct?.toList := by
  unfold Enrolment.struct?
  cases type : x.type with
  | struct decl =>
    simp [join, addStruct, declarations, Enrolment.name, type]
    rfl
  | enum decl => simp [join, addEnum, declarations]

theorem enums_join (r : Registry) (x : Enrolment) :
    (r.join x.id x.type).enums = r.enums ++ x.enum?.toList := by
  unfold Enrolment.enum?
  cases type : x.type with
  | struct decl => simp [join, addStruct]
  | enum decl =>
    simp [join, addEnum, Enrolment.name, type]
    rfl

theorem claim_of_free (free : ∀ n, x.id = some n → r.ids.owner? n = none) :
    r.claim x.id x.name = .ok { r with ids := ⟨x.owned?.toList ++ r.ids.entries⟩ } := by
  unfold claim IdTable.claim Enrolment.owned?
  cases id : x.id with
  | none => rfl
  | some n =>
    simp only [free n id]
    rfl

/-- A type that joins what was built from enrolled types is enrolled after them. -/
theorem rebuild_join (built : (declaring regs).rebuild config = .ok r) :
    ({ r with ids := ⟨x.owned?.toList ++ r.ids.entries⟩ }.join x.id x.type).rebuild config = .ok r' ↔
      (declaring (regs ++ [x])).rebuild config = .ok r' := by
  obtain ⟨-, ids, enums, -⟩ := rebuild_eq_ok built
  generalize claimed : ({ r with ids := ⟨x.owned?.toList ++ r.ids.entries⟩ } : Registry) = r₁
  have declarations : (r₁.join x.id x.type).declarations =
      (declaring (regs ++ [x])).declarations := by
    have same : r₁.declarations = r.declarations := by rw [← claimed]; rfl
    rw [declarations_join, same, declarations_rebuild built, declarations_declaring,
      declarations_declaring, filterMap_concat]
  have enums' : (r₁.join x.id x.type).enums = (declaring (regs ++ [x])).enums := by
    have same : r₁.enums = r.enums := by rw [← claimed]
    rw [enums_join, same, enums]
    exact (filterMap_concat ..).symm
  have ids' : (r₁.join x.id x.type).ids = (declaring (regs ++ [x])).ids := by
    rw [ids_join, ← claimed, ids]
    simp only [declaring, filterMap_concat, List.reverse_append]
    cases x.owned? <;> rfl
  exact ⟨rebuild_congr declarations enums' ids',
    rebuild_congr declarations.symm enums'.symm ids'.symm⟩

/-- What is known of a registry that was built from enrolled types. -/
theorem claimed_of_declaring (admissible : Enrolment.Admissible regs)
    (built : (declaring regs).rebuild config = .ok r) : r.Claimed := by
  obtain ⟨types, ids, -⟩ := rebuild_eq_ok built
  intro n owner owned
  rw [ids, owner?_declaring admissible] at owned
  obtain ⟨x, member, id, name⟩ := owned
  rw [types, mem_types_declaring]
  exact ⟨x, member, by rw [id, name]⟩

theorem contains_of_declaring (built : (declaring regs).rebuild config = .ok r) {name : String} :
    r.contains name = false ↔ name ∉ regs.map Enrolment.name := by
  rw [← contains_declaring, contains_eq_false_iff, contains_eq_false_iff, (rebuild_eq_ok built).1]

/-- Registering one more type after others. -/
theorem register_of_declaring (admissible : Enrolment.Admissible (regs ++ [x]))
    (built : (declaring regs).rebuild config = .ok r)
    (built' : (declaring (regs ++ [x])).rebuild config = .ok r') :
    r.register config x.id x.type = (.ok (), r') := by
  obtain ⟨before, name, id, valid⟩ := admissible_concat.1 admissible
  obtain ⟨-, ids, -⟩ := rebuild_eq_ok built
  have free : ∀ n, x.id = some n → r.ids.owner? n = none := by
    intro n owned
    refine Option.eq_none_iff_forall_ne_some.2 fun owner known => id n owned ?_
    rw [ids, owner?_declaring before] at known
    obtain ⟨y, member, same, -⟩ := known
    exact List.mem_filterMap.2 ⟨y, member, same⟩
  rw [register_of_claim ((contains_of_declaring built).2 name) valid (claim_of_free free), settle,
    (rebuild_join built).2 built']

theorem declaring_of_register (admissible : Enrolment.Admissible regs)
    (built : (declaring regs).rebuild config = .ok r)
    (done : (r.register config x.id x.type).1 = .ok ()) :
    Enrolment.Admissible (regs ++ [x]) ∧
      (declaring (regs ++ [x])).rebuild config = .ok (r.register config x.id x.type).2 := by
  obtain ⟨fresh, valid, r', claimed, joined⟩ := register_ok done
  have free := (claimed_of_declaring admissible built).free fresh claimed
  obtain ⟨-, ids, -⟩ := rebuild_eq_ok built
  have same := claimed.symm.trans (claim_of_free free)
  cases same
  refine ⟨admissible_concat.2 ⟨admissible, (contains_of_declaring built).1 fresh, ?_, valid⟩,
    (rebuild_join built).1 joined⟩
  intro n owned taken
  obtain ⟨y, member, same⟩ := List.mem_filterMap.1 taken
  have owner := (owner?_declaring admissible).2 ⟨y, member, same, rfl⟩
  rw [← ids, free n owned] at owner
  cases owner

end

/-! ## Fewer enrolments -/

/-- Some of the enrolments declare a part of what all declare. -/
theorem part_declaring {regs' : List Enrolment} (admissible : Enrolment.Admissible regs)
    (admissible' : Enrolment.Admissible regs') (sub : regs'.Subperm regs) :
    (declaring regs').Part (declaring regs) := by
  have subset := sub.subset
  have declared : ∀ name d, (declaring regs').declared? name = some d →
      (declaring regs).declared? name = some d := by
    intro name d known
    obtain ⟨x, member, same⟩ := (declared?_declaring admissible').1 known
    exact (declared?_declaring admissible).2 ⟨x, subset member, same⟩
  have enums : ∀ name e, (declaring regs').enum? name = some e →
      (declaring regs).enum? name = some e := by
    intro name e known
    obtain ⟨x, member, same⟩ := (enum?_declaring admissible').1 known
    exact (enum?_declaring admissible).2 ⟨x, subset member, same⟩
  refine ⟨fun compatible name info known => ?_, declared, enums, ?_⟩
  · rcases lookup_eq_some_iff.1 known with ⟨d, struct, same⟩ | ⟨-, e, enum, same⟩
    · exact lookup_eq_some_iff.2 (.inl ⟨d, declared name d struct, same⟩)
    · have enum := enums name e enum
      refine lookup_eq_some_iff.2 (.inr ⟨?_, e, enum, same⟩)
      refine Option.eq_none_iff_forall_ne_some.2 fun d struct => ?_
      obtain ⟨x, hx, isStruct⟩ := (declared?_declaring admissible).1 struct
      obtain ⟨y, hy, isEnum⟩ := (enum?_declaring admissible).1 enum
      have one := admissible.eq_of_name hx hy
        ((Enrolment.struct?_name isStruct).symm.trans (Enrolment.enum?_name isEnum))
      rw [← one, Enrolment.struct?_or_enum? isStruct] at isEnum
      cases isEnum
  · obtain ⟨middle, perm, sublist⟩ := sub
    have fewer := (sublist.filterMap Enrolment.struct?).length_le
    rwa [(perm.filterMap Enrolment.struct?).length_eq, ← count_declaring, ← count_declaring]
      at fewer

/-! ## Ancestors -/

/-- A parent that is extended is declared. -/
theorem parent_of_chain {r : Registry} {name : String} {decl : StructDecl}
    {chain : List StructDecl} (found : r.chain name decl = .ok chain) {parent : String}
    (above : decl.parent = some parent) : ∃ d, r.declared? parent = some d := by
  unfold Registry.chain ancestry at found
  simp only [above] at found
  split at found
  · cases found
  · split at found
    · cases found
    · rename_i known
      rw [map_lookup_decl] at known
      obtain ⟨d, declared, -⟩ := Option.map_eq_some_iff.1 known
      exact ⟨d, declared⟩

/-- No chain leads from a struct to the struct itself. -/
theorem ancestry_self {find : String → Option StructDecl} {parent name : String}
    {decl : StructDecl} (above : decl.parent = some parent) (self : find parent = some decl)
    (left : Nat) (chain : List StructDecl) : ancestry find name left decl ≠ .ok chain := by
  induction left generalizing chain with
  | zero =>
    unfold ancestry
    rw [above]
    intro found
    cases found
  | succ left ih =>
    unfold ancestry
    simp only [above, self]
    intro found
    obtain ⟨front, short, -⟩ := map_eq_ok_iff.1 found
    exact ih front short

/-- Whether every struct extends another struct that is enrolled, if it extends one. -/
def ParentsEnrolled (regs : List Enrolment) : Prop :=
  ∀ x ∈ regs, ∀ d, x.struct? = some d → ∀ parent, d.2.1.parent = some parent →
    parent ≠ x.name ∧ ∃ y ∈ regs, ∃ e, y.struct? = some (parent, e)

/-- Where everything is built, all parents are enrolled. -/
theorem parentsEnrolled_of_rebuild {r : Registry} (admissible : Enrolment.Admissible regs)
    (built : (declaring regs).rebuild config = .ok r) : ParentsEnrolled regs := by
  intro x member d isStruct parent above
  have declared : d ∈ (declaring regs).declarations := by
    rw [declarations_declaring]
    exact List.mem_filterMap.2 ⟨x, member, isStruct⟩
  obtain ⟨s, made⟩ := exists_rebuild_iff.1 ⟨r, built⟩ d declared
  obtain ⟨chain, found, -⟩ := bind_eq_ok_iff.1 made
  refine ⟨?_, ?_⟩
  · rintro rfl
    refine ancestry_self above ?_ _ _ found
    have known : (declaring regs).declared? x.name = some d.2 :=
      (declared?_declaring admissible).2 ⟨x, member, by rw [isStruct, ← Enrolment.struct?_name isStruct]⟩
    rw [map_lookup_decl, known]
    rfl
  · obtain ⟨e, known⟩ := parent_of_chain found above
    obtain ⟨y, enrolled, same⟩ := (declared?_declaring admissible).1 known
    exact ⟨y, enrolled, e, same⟩

/-- Where parents come first, all ancestors of a type are enrolled with it or before. -/
theorem chain_of_prefix (admissible : Enrolment.Admissible regs)
    (order : Enrolment.ParentsFirst regs) (parents : ParentsEnrolled regs) {first : List Enrolment}
    (sub : first <+: regs) {x : Enrolment} (member : x ∈ first)
    {d : String × StructDecl × Option Nat} (isStruct : x.struct? = some d) (name : String) :
    ∃ chain, ancestry (fun parent => ((declaring first).declared? parent).map (·.1)) name
      ((declaring first).structs.length - 1) d.2.1 = .ok chain := by
  induction first using List.reverseRecOn generalizing x d with
  | nil => cases member
  | append_singleton first last ih =>
    have all := admissible.sublist sub.sublist
    have before := admissible.sublist ((List.sublist_append_left first [last]).trans sub.sublist)
    have earlier : first <+: regs := (List.prefix_append first [last]).trans sub
    have part := part_declaring all before (List.sublist_append_left first [last]).subperm
    have find : ∀ parent decl, ((declaring first).declared? parent).map (·.1) = some decl →
        ((declaring (first ++ [last])).declared? parent).map (·.1) = some decl := by
      intro parent decl known
      obtain ⟨e, declared, rfl⟩ := Option.map_eq_some_iff.1 known
      rw [part.declared parent e declared]
      rfl
    rcases List.mem_append.1 member with old | new
    · obtain ⟨chain, found⟩ := ih earlier old isStruct
      exact ⟨chain, ancestry_mono find name (Nat.sub_le_sub_right part.count 1) found⟩
    · cases List.mem_singleton.1 new
      cases above : d.2.1.parent with
      | none =>
        unfold ancestry
        rw [above]
        exact ⟨_, rfl⟩
      | some parent =>
        obtain ⟨other, y, enrolled, e, struct⟩ :=
          parents last (sub.subset (by simp)) d isStruct parent above
        have isName := Enrolment.struct?_name struct
        dsimp only at isName
        subst isName
        have old := order.mem_of_parent sub enrolled
          ((Enrolment.parent?_of_struct? isStruct).trans above) other
        obtain ⟨chain, found⟩ := ih earlier old struct
        have positive : 0 < (declaring first).structs.length := by
          rw [count_declaring]
          exact List.length_pos_of_mem (List.mem_filterMap.2 ⟨y, old, struct⟩)
        have more : (declaring (first ++ [last])).structs.length - 1 =
            ((declaring first).structs.length - 1) + 1 := by
          rw [count_declaring, filterMap_concat, isStruct, List.length_append, ← count_declaring]
          simp
          omega
        have known : (declaring (first ++ [last])).declared? y.name = some e :=
          part.declared _ _ ((declared?_declaring before).2 ⟨y, old, struct⟩)
        rw [more]
        unfold ancestry
        simp only [above, known]
        exact ⟨_, map_eq_ok_iff.2 ⟨chain, ancestry_mono find name (Nat.le_refl _) found, rfl⟩⟩

/-- What can be built in the end can be built after each registration, if parents come first. -/
theorem rebuild_of_prefix {regs' : List Enrolment} (admissible : Enrolment.Admissible regs)
    (perm : regs.Perm regs') (order : Enrolment.ParentsFirst regs') {r : Registry}
    (built : (declaring regs).rebuild config = .ok r) {first : List Enrolment}
    (sub : first <+: regs') : ∃ r', (declaring first).rebuild config = .ok r' := by
  have admissible' := admissible.perm perm
  have here := admissible'.sublist sub.sublist
  have parents : ParentsEnrolled regs' := by
    intro x member d isStruct parent above
    obtain ⟨other, y, enrolled, found⟩ := parentsEnrolled_of_rebuild admissible built x
      (perm.mem_iff.2 member) d isStruct parent above
    exact ⟨other, y, perm.mem_iff.1 enrolled, found⟩
  have part := part_declaring admissible here (sub.sublist.subperm.trans perm.symm.subperm)
  refine exists_rebuild_iff.2 fun d declared => ?_
  rw [declarations_declaring] at declared
  obtain ⟨x, member, isStruct⟩ := List.mem_filterMap.1 declared
  obtain ⟨chain, found⟩ := chain_of_prefix admissible' order parents sub member isStruct d.1
  have ancestors : (declaring first).chain d.1 d.2.1 = .ok chain := by
    unfold Registry.chain
    simp only [map_lookup_decl]
    exact ancestry_mono (fun _ _ known => known) d.1 (Nat.sub_le _ 1) found
  have enrolled : d ∈ (declaring regs).declarations := by
    rw [declarations_declaring]
    exact List.mem_filterMap.2 ⟨x, perm.mem_iff.2 (sub.subset member), isStruct⟩
  obtain ⟨s, made⟩ := exists_rebuild_iff.1 ⟨r, built⟩ d enrolled
  exact part.build ancestors made

/-- Whether two registries hold the same, whatever the order: what every name belongs to, as it was
built, who owns every identifier, and what names and identifiers refer to. -/
structure SameTypes (r r' : Registry) : Prop where
  structs : ∀ name, r.struct? name = r'.struct? name
  enums : ∀ name, r.enum? name = r'.enum? name
  owners : ∀ id, r.ids.owner? id = r'.ids.owner? id
  byName : ∀ package typeName, r.byName? package typeName = r'.byName? package typeName
  byId : ∀ id, r.byId? id = r'.byId? id

theorem agrees_of_perm {regs' : List Enrolment} (admissible : Enrolment.Admissible regs)
    (perm : regs.Perm regs') : (declaring regs).Agrees (declaring regs') := by
  have part := part_declaring admissible (admissible.perm perm) perm.symm.subperm
  have part' := part_declaring (admissible.perm perm) admissible perm.subperm
  exact ⟨fun name => Option.ext fun d => ⟨part'.declared name d, part.declared name d⟩,
    fun name => Option.ext fun e => ⟨part'.enums name e, part.enums name e⟩,
    Nat.le_antisymm part'.count part.count⟩

/-- What is built does not depend on the order of the enrolments. -/
theorem sameTypes_of_perm {regs' : List Enrolment} (admissible : Enrolment.Admissible regs)
    (perm : regs.Perm regs') {r r' : Registry} (built : (declaring regs).rebuild config = .ok r)
    (built' : (declaring regs').rebuild config = .ok r') : r.SameTypes r' := by
  have agrees := agrees_of_perm admissible perm
  obtain ⟨-, ids, enums, -⟩ := rebuild_eq_ok built
  obtain ⟨-, ids', enums', -⟩ := rebuild_eq_ok built'
  have structs : ∀ name, r.struct? name = r'.struct? name := by
    intro name
    rw [struct?_rebuild built, struct?_rebuild built', agrees.declared]
    refine Option.bind_congr fun d _ => ?_
    rw [agrees.build config name rfl rfl]
  have enums : ∀ name, r.enum? name = r'.enum? name := by
    intro name
    rw [enum?, enum?, enums, enums']
    exact agrees.enums name
  have owners : ∀ id, r.ids.owner? id = r'.ids.owner? id := by
    intro id
    rw [ids, ids']
    refine Option.ext fun owner => ?_
    rw [owner?_declaring admissible, owner?_declaring (admissible.perm perm)]
    simp only [perm.mem_iff]
  have named : ∀ name, r.named? name = r'.named? name := by
    intro name
    rw [named?, named?, structs, enums]
  refine ⟨structs, enums, owners, fun package typeName => named _, fun id => ?_⟩
  rw [byId?, byId?, owners]
  exact Option.bind_congr fun name _ => named name

end Registry

/-! ## Instances -/

namespace Instance

/-- A fresh instance with other settings. -/
def configured (config : Config) : Instance := { fresh with config }

/-- Registers types one after the other until one is refused. -/
def registerAll (i : Instance) : List Enrolment → Except Error Unit × Instance
  | [] => (.ok (), i)
  | x :: rest =>
    match i.register x.id x.type with
    | (.ok _, j) => j.registerAll rest
    | (.error e, j) => (.error e, j)

open Registry (declaring)

variable {config : Config} {r : Registry}

theorem register_configured (x : Enrolment) :
    ({ configured config with registry := r }.register x.id x.type) =
      ((r.register config x.id x.type).1,
        { configured config with registry := (r.register config x.id x.type).2 }) := by
  rw [register_eq]
  show settle _ (r.register config x.id x.type) = _
  generalize r.register config x.id x.type = outcome
  obtain ⟨_ | _, r'⟩ := outcome <;> rfl

/-- Types that were registered are the enrolled ones, built. -/
theorem declaring_of_registerAll {before : List Enrolment}
    (admissible : Enrolment.Admissible before)
    (built : (declaring before).rebuild config = .ok r) {regs : List Enrolment}
    (done : ({ configured config with registry := r }.registerAll regs).1 = .ok ()) :
    Enrolment.Admissible (before ++ regs) ∧
      (declaring (before ++ regs)).rebuild config =
        .ok ({ configured config with registry := r }.registerAll regs).2.registry := by
  induction regs generalizing before r with
  | nil =>
    rw [List.append_nil]
    exact ⟨admissible, built⟩
  | cons x regs ih =>
    rw [registerAll, register_configured] at done ⊢
    have step := Registry.declaring_of_register (x := x) admissible built
    generalize r.register config x.id x.type = outcome at done step ⊢
    obtain ⟨_ | _, r'⟩ := outcome
    · cases done
    · obtain ⟨admissible, built⟩ := step rfl
      rw [List.append_cons]
      exact ih admissible built done

/-- Types can be registered if everything can be built after each of them. -/
theorem registerAll_of_declaring {before regs : List Enrolment}
    (admissible : Enrolment.Admissible (before ++ regs))
    (built : (declaring before).rebuild config = .ok r)
    (every : ∀ first, first <+: regs → ∃ r', (declaring (before ++ first)).rebuild config = .ok r') :
    ({ configured config with registry := r }.registerAll regs).1 = .ok () := by
  induction regs generalizing before r with
  | nil => rfl
  | cons x regs ih =>
    rw [List.append_cons] at admissible
    obtain ⟨r', built'⟩ := every [x] (by simp)
    have first := admissible.sublist (List.sublist_append_left _ _)
    rw [registerAll, register_configured, Registry.register_of_declaring first built built']
    refine ih admissible built' fun rest sub => ?_
    rw [List.append_assoc, List.singleton_append]
    exact every (x :: rest) ((List.prefix_cons_inj x).2 sub)

/-- The order of registrations does not matter: if every type of a list is registered, every one is in
any other order that puts parents before children, and the instances know the same types. -/
theorem registerAll_perm (config : Config) {regs regs' : List Enrolment} (perm : regs.Perm regs')
    (order : Enrolment.ParentsFirst regs')
    (done : ((configured config).registerAll regs).1 = .ok ()) :
    ((configured config).registerAll regs').1 = .ok () ∧
      ((configured config).registerAll regs).2.registry.SameTypes
        ((configured config).registerAll regs').2.registry := by
  have nothing : Enrolment.Admissible [] := ⟨List.nodup_nil, List.nodup_nil, fun _ h => by cases h⟩
  have start : (declaring []).rebuild config = .ok .empty := rfl
  obtain ⟨admissible, built⟩ := declaring_of_registerAll nothing start done
  have every : ∀ first, first <+: regs' → ∃ r', (declaring ([] ++ first)).rebuild config = .ok r' :=
    fun first sub => Registry.rebuild_of_prefix admissible perm order built sub
  have done' := registerAll_of_declaring (admissible.perm perm) start every
  obtain ⟨-, built'⟩ := declaring_of_registerAll nothing start done'
  exact ⟨done', Registry.sameTypes_of_perm admissible perm built built'⟩

/-- An enumeration. -/
def color : Enrolment := ⟨some 3, .enum ⟨.ofNames "demo" "Color", ["RED", "GREEN"]⟩⟩

/-- A struct that others extend, with a field of the enumeration. -/
def solid : Enrolment :=
  ⟨some 1, .struct
    { naming := .ofNames "demo" "Solid", parent := none, isAbstract := true,
      fields := [.ofShape "color" (.named "demo.Color")] }⟩

/-- A struct that extends the other one, known by its name. -/
def cube : Enrolment :=
  ⟨none, .struct
    { naming := .ofNames "demo" "Cube", parent := some "demo.Solid", isAbstract := false,
      fields := [] }⟩

/-- The enumeration may come first or last. -/
theorem registerAll_solids :
    [color, solid, cube].Perm [solid, cube, color] ∧
      Enrolment.ParentsFirst [solid, cube, color] ∧
      ((configured { Config.standard with compatible := true }).registerAll
        [color, solid, cube]).1 = .ok () ∧
      ((configured { Config.standard with compatible := true }).registerAll
        [solid, cube, color]).1 = .ok () ∧
      ((configured { Config.standard with compatible := true }).registerAll
        [color, solid, cube]).2.registry.SameTypes
          ((configured { Config.standard with compatible := true }).registerAll
            [solid, cube, color]).2.registry := by
  have perm : [color, solid, cube].Perm [solid, cube, color] := by decide +kernel
  have order : Enrolment.ParentsFirst [solid, cube, color] := by
    unfold Enrolment.ParentsFirst
    decide +kernel
  have done : ((configured { Config.standard with compatible := true }).registerAll
      [color, solid, cube]).1 = .ok () := by decide +kernel
  exact ⟨perm, order, done, registerAll_perm _ perm order done⟩

end Instance

end Graphwire
