import Graphwire.Registry.Basic
import Mathlib.Data.List.Nodup
import Mathlib.Data.List.Perm.Subperm
import Mathlib.Logic.Relation
import Mathlib.Order.WellFounded

/-!
# Lineages

A struct names its parent, and nothing keeps the names of a registry from leading out of it or back
to where they started. The walk up the parents stops once it has met more structs than there are. A
walk that meets no struct twice never comes so far (`Trail.length_le`), so only a ring of parents
stops it, and it sees every lineage to its end and every missing parent.
-/

namespace Graphwire

set_option autoImplicit false

namespace Registry

open Relation (ReflTransGen TransGen)

variable {r : Registry} {name parent missing : String} {decl ancestor : StructDecl}
  {chain : List StructDecl}

/-! ## Where parents lead -/

/-- The declaration of a registered struct. -/
def decl? (r : Registry) (name : String) : Option StructDecl :=
  (r.structs.lookup name).map (·.decl)

theorem decl?_eq_none_iff : r.decl? name = none ↔ r.structs.lookup name = none :=
  Option.map_eq_none_iff

/-- A name with a declaration stands in the table. -/
theorem mem_of_decl (known : r.decl? name = some decl) : name ∈ r.structs.map (·.1) := by
  obtain ⟨entry, found, -⟩ := Option.map_eq_some_iff.1 known
  obtain ⟨_, _, split, -⟩ := List.lookup_eq_some_iff.1 found
  simp [split]

/-- Whether the struct of a name extends the struct of another, which need not be registered. -/
def Extends (r : Registry) (name parent : String) : Prop :=
  ∃ decl, r.decl? name = some decl ∧ decl.parent = some parent

/-- The declarations from the most ancestral struct, which extends none, down to a struct. -/
inductive Lineage (r : Registry) : String → List StructDecl → Prop where
  | root {name : String} {decl : StructDecl} (known : r.decl? name = some decl)
      (top : decl.parent = none) : Lineage r name [decl]
  | child {name parent : String} {decl : StructDecl} {above : List StructDecl}
      (known : r.decl? name = some decl) (up : decl.parent = some parent)
      (line : Lineage r parent above) : Lineage r name (above ++ [decl])

/-- Whether a struct has an ancestor of a name that is not registered. -/
def Lacks (r : Registry) (name missing : String) : Prop :=
  TransGen r.Extends name missing ∧ r.structs.lookup missing = none

/-- Whether a struct has a parent, its parent has one, and so on without end. -/
def Endless (r : Registry) (name : String) : Prop :=
  ∃ line : Nat → String, line 0 = name ∧ ∀ i, r.Extends (line i) (line (i + 1))

/-- Whether a struct or an ancestor of it is its own ancestor. -/
def Circles (r : Registry) (name : String) : Prop :=
  ∃ a, ReflTransGen r.Extends name a ∧ TransGen r.Extends a a

theorem Extends.of_decl (known : r.decl? name = some decl) (up : decl.parent = some parent) :
    r.Extends name parent :=
  ⟨decl, known, up⟩

theorem Extends.parent_eq (step : r.Extends name parent) (known : r.decl? name = some decl) :
    decl.parent = some parent := by
  obtain ⟨_, declared, up⟩ := step
  cases known.symm.trans declared
  exact up

/-- A struct extends one struct at most. -/
theorem Extends.unique : Relator.RightUnique r.Extends := by
  rintro name a b ⟨decl, known, up⟩ step
  exact Option.some.inj (up.symm.trans (step.parent_eq known))

theorem not_extends_of_unknown (unknown : r.structs.lookup missing = none) (a : String) :
    ¬ r.Extends missing a := by
  rintro ⟨_, known, -⟩
  rw [decl?_eq_none_iff.2 unknown] at known
  cases known

/-! ## Each struct has one fate -/

theorem Lineage.unique {other : List StructDecl} (line : r.Lineage name chain)
    (line' : r.Lineage name other) : chain = other := by
  induction line generalizing other with
  | root known top =>
    cases line' with
    | root known' => cases known.symm.trans known'; rfl
    | child known' up => cases known.symm.trans known'; cases top.symm.trans up
  | child known up _ ih =>
    cases line' with
    | root known' top => cases known.symm.trans known'; cases top.symm.trans up
    | child known' up' line' =>
      cases known.symm.trans known'
      cases up.symm.trans up'
      rw [ih line']

theorem Lacks.unique {other : String} (lacks : r.Lacks name missing) (lacks' : r.Lacks name other) :
    missing = other := by
  have alone := (Relation.reflTransGen_iff_eq (not_extends_of_unknown lacks.2) (b := other)).1
  have alone' := (Relation.reflTransGen_iff_eq (not_extends_of_unknown lacks'.2) (b := missing)).1
  rcases ReflTransGen.total_of_right_unique Extends.unique lacks.1.to_reflTransGen
    lacks'.1.to_reflTransGen with above | above
  · exact (alone above).symm
  · exact alone' above

/-- A struct with a lineage is registered, and so are all its ancestors. -/
theorem Lineage.known {a : String} (line : r.Lineage name chain)
    (above : ReflTransGen r.Extends name a) : r.decl? a ≠ none := by
  induction line with
  | root known top =>
    rcases above.cases_head with rfl | ⟨_, step, -⟩
    · simp [known]
    · cases top.symm.trans (step.parent_eq known)
  | child known up _ ih =>
    rcases above.cases_head with rfl | ⟨_, step, rest⟩
    · simp [known]
    · cases up.symm.trans (step.parent_eq known)
      exact ih rest

theorem Lineage.not_lacks (line : r.Lineage name chain) : ¬ r.Lacks name missing :=
  fun lacks => line.known lacks.1.to_reflTransGen (decl?_eq_none_iff.2 lacks.2)

theorem endless_iff_not_acc : r.Endless name ↔ ¬ Acc (Function.swap r.Extends) name :=
  (not_acc_iff_exists_descending_chain (r := Function.swap r.Extends)).symm

theorem Lineage.not_endless (line : r.Lineage name chain) : ¬ r.Endless name := by
  rw [endless_iff_not_acc, not_not]
  induction line with
  | root known top =>
    refine ⟨_, fun _ step => ?_⟩
    cases top.symm.trans (step.parent_eq known)
  | child known up _ ih =>
    refine ⟨_, fun _ step => ?_⟩
    cases up.symm.trans (step.parent_eq known)
    exact ih

theorem Lacks.not_endless (lacks : r.Lacks name missing) : ¬ r.Endless name := by
  rw [endless_iff_not_acc, not_not]
  obtain ⟨above, unknown⟩ := lacks
  replace above := above.to_reflTransGen
  induction above using ReflTransGen.head_induction_on with
  | refl => exact ⟨_, fun a step => absurd step (not_extends_of_unknown unknown a)⟩
  | head step _ ih => exact ⟨_, fun _ step' => Extends.unique step step' ▸ ih⟩

/-- Parents that come back never end. -/
theorem Circles.endless (circles : r.Circles name) : r.Endless name := by
  rw [endless_iff_not_acc]
  intro acc
  induction acc with
  | intro name _ ih =>
    obtain ⟨a, above, ring⟩ := circles
    obtain ⟨parent, step, rest⟩ := TransGen.head'_iff.1 (ring.trans_right above)
    exact ih parent step ⟨a, rest, ring⟩

/-! ## What the walk tells -/

section Walk

variable {subject : String} {left : Nat}

theorem map_eq_error_iff {α β : Type} {x : Except Error α} {f : α → β} {e : Error} :
    x.map f = .error e ↔ x = .error e := by
  cases x <;> simp [Except.map]

theorem chain_eq (r : Registry) (name : String) (decl : StructDecl) :
    r.chain name decl = ancestry r.decl? name r.structs.length decl :=
  rfl

/-- A walk yields a lineage, or finds a parent missing, or stops before either. -/
theorem ancestry_cases (known : r.decl? name = some decl) :
    (∃ chain, ancestry r.decl? subject left decl = .ok chain ∧ r.Lineage name chain) ∨
      (∃ missing, ancestry r.decl? subject left decl = .error (.parentMissing missing subject) ∧
        r.Lacks name missing) ∨
      ancestry r.decl? subject left decl = .error (.inheritanceCycle subject) := by
  fun_induction ancestry r.decl? subject left decl generalizing name with
  | case1 left decl top => exact .inl ⟨_, rfl, .root known top⟩
  | case2 decl parent up => exact .inr (.inr rfl)
  | case3 decl parent up left unknown =>
    have step : r.Extends name parent := .of_decl known up
    exact .inr (.inl ⟨parent, rfl, .single step, decl?_eq_none_iff.1 unknown⟩)
  | case4 decl parent up left ancestor found ih =>
    have step : r.Extends name parent := .of_decl known up
    rcases ih found with ⟨above, walked, line⟩ | ⟨missing, walked, above, unknown⟩ | walked
    · exact .inl ⟨_, by rw [walked]; rfl, .child known up line⟩
    · exact .inr (.inl ⟨missing, by rw [walked]; rfl, .head step above, unknown⟩)
    · exact .inr (.inr (by rw [walked]; rfl))

/-- The structs that a walk has met, when it stands at one of them and has met none twice. -/
structure Trail (r : Registry) (met : List String) (name : String) : Prop where
  nodup : met.Nodup
  registered : met ⊆ r.structs.map (·.1)
  below : ∀ a ∈ met, ReflTransGen r.Extends a name

namespace Trail

variable {met : List String}

theorem start (known : r.decl? name = some decl) : r.Trail [name] name where
  nodup := List.nodup_singleton name
  registered _ member := List.mem_singleton.1 member ▸ mem_of_decl known
  below _ member := List.mem_singleton.1 member ▸ .refl

/-- A step to a struct that was not met. -/
theorem step (trail : r.Trail met name) (step : r.Extends name parent)
    (known : r.decl? parent = some ancestor) (new : parent ∉ met) :
    r.Trail (parent :: met) parent where
  nodup := List.nodup_cons.2 ⟨new, trail.nodup⟩
  registered := List.cons_subset.2 ⟨mem_of_decl known, trail.registered⟩
  below a member := by
    rcases List.mem_cons.1 member with rfl | old
    · exact .refl
    · exact (trail.below a old).tail step

/-- A step to a struct that was met closes a ring. -/
theorem circles (trail : r.Trail met name) (step : r.Extends name parent) (old : parent ∈ met) :
    r.Circles name :=
  ⟨parent, .single step, .tail' (trail.below parent old) step⟩

/-- No more structs are met than there are. -/
theorem length_le (trail : r.Trail met name) : met.length ≤ r.structs.length := by
  simpa using (trail.nodup.subperm trail.registered).length_le

/-- A walk that may still meet as many structs as it has not met, and one more, is stopped by a
ring only: at the first struct that it meets again, or else it would have met too many. -/
theorem circles_of_ancestry (trail : r.Trail met name)
    (room : met.length + left = r.structs.length + 1) (known : r.decl? name = some decl)
    (stopped : ancestry r.decl? subject left decl = .error (.inheritanceCycle subject)) :
    r.Circles name := by
  fun_induction ancestry r.decl? subject left decl generalizing name met with
  | case1 left decl top => cases stopped
  | case2 decl parent up =>
    -- without room the trail would be longer than the table
    have full := trail.length_le
    omega
  | case3 decl parent up left unknown => cases stopped
  | case4 decl parent up left ancestor found ih =>
    have step : r.Extends name parent := .of_decl known up
    by_cases old : parent ∈ met
    · exact trail.circles step old
    · have room' : (parent :: met).length + left = r.structs.length + 1 := by
        rw [List.length_cons]
        omega
      obtain ⟨a, above, ring⟩ :=
        ih (trail.step step found old) room' found (map_eq_error_iff.1 stopped)
      exact ⟨a, .head step above, ring⟩

end Trail

/-- The chain of a registered struct is its lineage, or an ancestor is missing, or its parents come
back. -/
theorem chain_cases (known : r.decl? name = some decl) :
    (∃ chain, r.chain name decl = .ok chain ∧ r.Lineage name chain) ∨
      (∃ missing, r.chain name decl = .error (.parentMissing missing name) ∧
        r.Lacks name missing) ∨
      (r.chain name decl = .error (.inheritanceCycle name) ∧ r.Circles name) := by
  rw [chain_eq]
  refine (ancestry_cases known).imp_right (.imp_right fun stopped => ⟨stopped, ?_⟩)
  exact (Trail.start known).circles_of_ancestry (Nat.add_comm ..) known stopped

theorem chain_eq_ok_iff (known : r.decl? name = some decl) :
    r.chain name decl = .ok chain ↔ r.Lineage name chain := by
  rcases chain_cases known with ⟨_, found, line⟩ | ⟨_, found, lacks⟩ | ⟨found, circles⟩
  · rw [found, Except.ok.injEq]
    exact ⟨fun same => same ▸ line, fun other => line.unique other⟩
  · exact iff_of_false (by simp [found]) fun line => line.not_lacks lacks
  · exact iff_of_false (by simp [found]) fun line => line.not_endless circles.endless

theorem chain_eq_missing_iff (known : r.decl? name = some decl) :
    r.chain name decl = .error (.parentMissing missing name) ↔ r.Lacks name missing := by
  rcases chain_cases known with ⟨_, found, line⟩ | ⟨_, found, lacks⟩ | ⟨found, circles⟩
  · exact iff_of_false (by simp [found]) line.not_lacks
  · rw [found]
    refine ⟨fun same => ?_, fun other => by rw [lacks.unique other]⟩
    cases same
    exact lacks
  · exact iff_of_false (by simp [found]) fun lacks => lacks.not_endless circles.endless

theorem chain_eq_cycle_iff (known : r.decl? name = some decl) :
    r.chain name decl = .error (.inheritanceCycle name) ↔ r.Endless name := by
  rcases chain_cases known with ⟨_, found, line⟩ | ⟨_, found, lacks⟩ | ⟨found, circles⟩
  · exact iff_of_false (by simp [found]) line.not_endless
  · exact iff_of_false (by simp [found]) lacks.not_endless
  · exact iff_of_true found circles.endless

/-- Since there are finitely many structs, parents never end only where they come back. -/
theorem endless_iff_circles (known : r.decl? name = some decl) :
    r.Endless name ↔ r.Circles name := by
  refine ⟨fun endless => ?_, Circles.endless⟩
  rcases chain_cases known with ⟨_, -, line⟩ | ⟨_, -, lacks⟩ | ⟨-, circles⟩
  · exact absurd endless line.not_endless
  · exact absurd endless lacks.not_endless
  · exact circles

/-! ## The walk step by step -/

/-- How far a walk up the parents has come: the declarations that it has met, the most ancestral
one first, and the parent to be met next. -/
structure Climb where
  line : List StructDecl
  next : Option String

namespace Climb

/-- One step of the walk from a struct: it ends with a result, or goes on. -/
def step (r : Registry) (subject : String) (w : Climb) :
    Except Error (List StructDecl) ⊕ Climb :=
  match w.next with
  | none => .inl (.ok w.line)
  | some parent =>
    if r.structs.length < w.line.length then .inl (.error (.inheritanceCycle subject))
    else
      match r.decl? parent with
      | none => .inl (.error (.parentMissing parent subject))
      | some ancestor => .inr ⟨ancestor :: w.line, ancestor.parent⟩

/-- Where the walk is after a number of steps, or what it has ended with. -/
def run (r : Registry) (subject : String) : Nat → Climb → Except Error (List StructDecl) ⊕ Climb
  | 0, w => .inr w
  | steps + 1, w =>
    match w.step r subject with
    | .inl result => .inl result
    | .inr above => above.run r subject steps

/-- The walk from a declaration. -/
def start (decl : StructDecl) : Climb := ⟨[decl], decl.parent⟩

theorem run_of_end {w : Climb} {result : Except Error (List StructDecl)} {steps : Nat}
    (ends : w.step r subject = .inl result) : w.run r subject (steps + 1) = .inl result := by
  rw [run, ends]

theorem run_of_step {w above : Climb} {steps : Nat} (goes : w.step r subject = .inr above) :
    w.run r subject (steps + 1) = above.run r subject steps := by
  rw [run, goes]

/-- The rest of a walk takes one step for each struct that it may still meet, and one to end. -/
theorem run_eq {below : List StructDecl} (room : below.length + left = r.structs.length) :
    run r subject (left + 1) ⟨decl :: below, decl.parent⟩ =
      .inl ((ancestry r.decl? subject left decl).map (· ++ below)) := by
  fun_induction ancestry r.decl? subject left decl generalizing below with
  | case1 left decl top =>
    refine run_of_end ?_
    simp only [step, top]
    rfl
  | case2 decl parent up =>
    have full : r.structs.length < (decl :: below).length := by rw [List.length_cons]; omega
    refine run_of_end ?_
    simp only [step, up, if_pos full]
    rfl
  | case3 decl parent up left unknown =>
    have short : ¬ r.structs.length < (decl :: below).length := by rw [List.length_cons]; omega
    refine run_of_end ?_
    simp only [step, up, if_neg short, unknown]
    rfl
  | case4 decl parent up left ancestor found ih =>
    have short : ¬ r.structs.length < (decl :: below).length := by rw [List.length_cons]; omega
    have goes : step r subject ⟨decl :: below, decl.parent⟩ =
        .inr ⟨ancestor :: decl :: below, ancestor.parent⟩ := by
      simp only [step, up, if_neg short, found]
    rw [run_of_step goes, ih (by rw [List.length_cons]; omega)]
    cases ancestry r.decl? subject left ancestor with
    | ok above => simp [Except.map]
    | error e => rfl

/-- Every walk ends, after one step more than there are structs or before. -/
theorem run_start (r : Registry) (subject : String) (decl : StructDecl) :
    run r subject (r.structs.length + 1) (start decl) = .inl (r.chain subject decl) := by
  rw [start, run_eq (Nat.zero_add _), chain_eq]
  cases ancestry r.decl? subject r.structs.length decl with
  | ok chain => simp [Except.map]
  | error e => rfl

end Climb

end Walk

/-! ## Chains are exact -/

/-- Building a struct reports what the walk up its parents reports. -/
theorem build_of_chain_error {config : Config} {entry : StructEntry} {e : Error}
    (failed : r.chain name entry.decl = .error e) : r.build config name entry = .error e := by
  unfold build
  rw [failed]
  rfl

/-- In every table of structs, whatever parents they name: the walk from a struct ends after one
step more than there are structs, or before. It gives the lineage exactly if there is one, reports a
missing parent exactly if that ancestor is not registered, and reports a cycle exactly if the
parents never end, that is, if they come back to a struct. -/
theorem chain_follows_parents {entry : StructEntry} (known : r.structs.lookup name = some entry) :
    Climb.run r name (r.structs.length + 1) (.start entry.decl) =
        .inl (r.chain name entry.decl) ∧
      (∀ chain, r.chain name entry.decl = .ok chain ↔ r.Lineage name chain) ∧
      (∀ missing, r.chain name entry.decl = .error (.parentMissing missing name) ↔
        r.Lacks name missing) ∧
      (r.chain name entry.decl = .error (.inheritanceCycle name) ↔ r.Endless name) ∧
      (r.Endless name ↔ r.Circles name) ∧
      ∀ config e, r.chain name entry.decl = .error e → r.build config name entry = .error e := by
  have declared : r.decl? name = some entry.decl := by rw [decl?, known, Option.map_some]
  exact ⟨Climb.run_start r name entry.decl, fun _ => chain_eq_ok_iff declared,
    fun _ => chain_eq_missing_iff declared, chain_eq_cycle_iff declared,
    endless_iff_circles declared, fun _ _ => build_of_chain_error⟩

/-- A struct without fields. -/
def bare (name : String) (parent : Option String) : StructEntry :=
  ⟨⟨.ofNames "" name, parent, false, []⟩, none, none⟩

/-- Three structs in a line, one with a parent that is not registered, and two that extend each
other, with one below them. -/
def tangled : Registry where
  structs :=
    [("Leaf", bare "Leaf" (some "Middle")), ("Middle", bare "Middle" (some "Base")),
      ("Base", bare "Base" none), ("Orphan", bare "Orphan" (some "Gone")),
      ("Left", bare "Left" (some "Right")), ("Right", bare "Right" (some "Left")),
      ("Below", bare "Below" (some "Left"))]
  enums := []
  ids := .empty

/-- A lineage, a missing parent and a cycle in one table. -/
theorem chain_follows_parents_tangled :
    tangled.structs.lookup "Leaf" = some (bare "Leaf" (some "Middle")) ∧
      tangled.Lineage "Leaf" [(bare "Base" none).decl, (bare "Middle" (some "Base")).decl,
        (bare "Leaf" (some "Middle")).decl] ∧
      tangled.structs.lookup "Orphan" = some (bare "Orphan" (some "Gone")) ∧
      tangled.Lacks "Orphan" "Gone" ∧
      (∀ config, tangled.build config "Orphan" (bare "Orphan" (some "Gone")) =
        .error (.parentMissing "Gone" "Orphan")) ∧
      tangled.structs.lookup "Below" = some (bare "Below" (some "Left")) ∧
      tangled.Endless "Below" := by
  have leaf : tangled.structs.lookup "Leaf" = some (bare "Leaf" (some "Middle")) := rfl
  have orphan : tangled.structs.lookup "Orphan" = some (bare "Orphan" (some "Gone")) := rfl
  have below : tangled.structs.lookup "Below" = some (bare "Below" (some "Left")) := rfl
  obtain ⟨-, lineage, -⟩ := chain_follows_parents leaf
  obtain ⟨-, -, lacks, -, -, reported⟩ := chain_follows_parents orphan
  obtain ⟨-, -, -, endless, -⟩ := chain_follows_parents below
  exact ⟨leaf, (lineage _).1 rfl, orphan, (lacks _).1 rfl, fun config => reported config _ rfl,
    below, endless.1 rfl⟩

/-- A lineage may take in the whole table. -/
example :
    let line := [("Leaf", bare "Leaf" (some "Base")), ("Base", bare "Base" none)]
    Registry.chain ⟨line, [], .empty⟩ "Leaf" (bare "Leaf" (some "Base")).decl =
      .ok [(bare "Base" none).decl, (bare "Leaf" (some "Base")).decl] := by
  rfl

end Registry

end Graphwire
