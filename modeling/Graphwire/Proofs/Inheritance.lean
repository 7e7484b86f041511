import Graphwire.Schema.Field
import Mathlib.Data.List.Basic
import Mathlib.Data.List.Nodup
import Mathlib.Data.List.Induction

/-!
# Inherited fields

What flattening an inheritance chain makes of its declarations, with names repeated in any way. The
list of fields and the map of positions are built side by side; `Flattening.Holds` ties both to the
declarations met so far.
-/

namespace Graphwire

set_option autoImplicit false

/-- Whether a declaration is the last one of its name in a list. -/
def LastIn (decls : List (FieldDecl × String)) (d : FieldDecl × String) : Prop :=
  ∃ before after, decls = before ++ d :: after ∧ d.1.name ∉ after.map (·.1.name)

theorem LastIn.mem {decls : List (FieldDecl × String)} {d : FieldDecl × String}
    (h : LastIn decls d) : d ∈ decls := by
  obtain ⟨before, after, rfl, -⟩ := h
  exact List.mem_append_right _ List.mem_cons_self

theorem LastIn.concat (decls : List (FieldDecl × String)) (d : FieldDecl × String) :
    LastIn (decls ++ [d]) d :=
  ⟨decls, [], rfl, List.not_mem_nil⟩

/-- A declaration of another name leaves it the last one. -/
theorem LastIn.other {decls : List (FieldDecl × String)} {d e : FieldDecl × String}
    (h : LastIn decls d) (ne : d.1.name ≠ e.1.name) : LastIn (decls ++ [e]) d := by
  obtain ⟨before, after, rfl, absent⟩ := h
  refine ⟨before, after ++ [e], by simp, ?_⟩
  rw [List.map_append, List.mem_append]
  exact not_or.2 ⟨absent, fun h => ne (List.mem_singleton.1 h)⟩

namespace Flattening

theorem declare_of_known {w : Flattening} {d : FieldDecl × String} {i : Nat}
    (known : w.positions.lookup d.1.name = some i) :
    w.declare d = { w with fields := w.fields.set i d } := by
  unfold declare
  rw [known]

theorem declare_of_unknown {w : Flattening} {d : FieldDecl × String}
    (unknown : w.positions.lookup d.1.name = none) :
    w.declare d = ⟨w.fields ++ [d], (d.1.name, w.fields.length) :: w.positions⟩ := by
  unfold declare
  rw [unknown]

/-- What the fields and the positions are after a list of declarations. -/
structure Holds (decls : List (FieldDecl × String)) (w : Flattening) : Prop where
  names : w.fields.map (·.1.name) = (decls.map (·.1.name)).eraseDups
  nodup : (w.fields.map (·.1.name)).Nodup
  positions : ∀ name i,
    w.positions.lookup name = some i ↔ (w.fields.map (·.1.name))[i]? = some name
  last : ∀ d ∈ w.fields, LastIn decls d

theorem holds_empty : Holds [] empty where
  names := rfl
  nodup := List.nodup_nil
  positions _ _ := by simp [empty]
  last _ h := absurd h List.not_mem_nil

namespace Holds

variable {decls : List (FieldDecl × String)} {w : Flattening} {d : FieldDecl × String}

theorem mem_names (h : Holds decls w) {name : String} :
    name ∈ w.fields.map (·.1.name) ↔ name ∈ decls.map (·.1.name) := by
  rw [h.names, List.mem_eraseDups]

theorem lookup_eq_none (h : Holds decls w) {name : String} :
    w.positions.lookup name = none ↔ name ∉ decls.map (·.1.name) := by
  rw [← h.mem_names, List.mem_iff_getElem?, Option.eq_none_iff_forall_ne_some, not_exists]
  exact forall_congr' fun i => not_congr (h.positions name i)

/-- A redefinition stands where the field of that name stood. -/
theorem redeclare (h : Holds decls w) {i : Nat}
    (known : w.positions.lookup d.1.name = some i) : Holds (decls ++ [d]) (w.declare d) := by
  have found := (h.positions _ i).1 known
  have same : (w.fields.set i d).map (·.1.name) = w.fields.map (·.1.name) := by
    obtain ⟨lt, at_i⟩ := List.getElem?_eq_some_iff.1 found
    rw [List.map_set, ← at_i, List.set_getElem_self]
  have taken : d.1.name ∈ decls.map (·.1.name) :=
    h.mem_names.1 (List.mem_of_getElem? found)
  rw [declare_of_known known]
  refine ⟨?_, same ▸ h.nodup, fun name j => ?_, fun x member => ?_⟩
  · rw [same, h.names, List.map_append, List.eraseDups_append]
    simp [List.removeAll, taken]
  · rw [same]
    exact h.positions name j
  · obtain ⟨j, at_j⟩ := List.mem_iff_getElem?.1 member
    rw [List.getElem?_set] at at_j
    split at at_j
    · split at at_j
      · exact Option.some.inj at_j ▸ .concat decls d
      · nomatch at_j
    · rename_i ne
      refine (h.last x (List.mem_of_getElem? at_j)).other fun clash => ne ?_
      have found' : (w.fields.map (·.1.name))[j]? = some d.1.name := by
        rw [List.getElem?_map, at_j, Option.map_some, clash]
      exact Option.some.inj (known.symm.trans ((h.positions _ j).2 found'))

/-- A new name goes to the end, and its position is the number of fields before it. -/
theorem append (h : Holds decls w) (unknown : w.positions.lookup d.1.name = none) :
    Holds (decls ++ [d]) (w.declare d) := by
  have new := h.lookup_eq_none.1 unknown
  have absent := mt h.mem_names.1 new
  have names : (w.fields ++ [d]).map (·.1.name) = w.fields.map (·.1.name) ++ [d.1.name] :=
    List.map_append
  rw [declare_of_unknown unknown]
  refine ⟨?_, ?_, fun name j => ?_, fun x member => ?_⟩
  · rw [names, h.names, List.map_append, List.eraseDups_append]
    simp [List.removeAll, new, List.eraseDups_cons]
  · rw [names, ← List.concat_eq_append]
    exact h.nodup.concat absent
  · rw [names, List.lookup_cons]
    by_cases same : name = d.1.name
    · have at_end : (w.fields.map (·.1.name) ++ [d.1.name])[j]? = some d.1.name ↔
          (w.fields.map (·.1.name)).length = j := by grind
      rw [same, at_end, List.length_map]
      simp
    · have other : (w.fields.map (·.1.name) ++ [d.1.name])[j]? = some name ↔
          (w.fields.map (·.1.name))[j]? = some name := by grind
      rw [beq_false_of_ne same, other]
      exact h.positions name j
  · rcases List.mem_append.1 member with old | now
    · exact (h.last x old).other fun clash => absent (clash ▸ List.mem_map_of_mem old)
    · exact List.mem_singleton.1 now ▸ .concat decls d

/-- One declaration. -/
theorem declare (h : Holds decls w) (d : FieldDecl × String) :
    Holds (decls ++ [d]) (w.declare d) := by
  cases known : w.positions.lookup d.1.name with
  | some i => exact h.redeclare known
  | none => exact h.append known

end Holds

/-- All declarations, one after the other. -/
theorem holds_foldl (decls : List (FieldDecl × String)) :
    Holds decls (decls.foldl Flattening.declare .empty) := by
  induction decls using List.reverseRecOn with
  | nil => exact holds_empty
  | append_singleton decls d ih =>
    rw [List.foldl_append]
    exact ih.declare d

/-- Where no name is declared twice, the declarations stand one after the other. -/
theorem fields_foldl_of_nodup {decls : List (FieldDecl × String)}
    (names : (decls.map (·.1.name)).Nodup) : (decls.foldl declare .empty).fields = decls := by
  induction decls using List.reverseRecOn with
  | nil => rfl
  | append_singleton decls d ih =>
    rw [List.map_append, List.map_singleton, ← List.concat_eq_append, List.nodup_concat] at names
    have unknown := (holds_foldl decls).lookup_eq_none.2 names.1
    rw [List.foldl_append, List.foldl_cons, List.foldl_nil, declare_of_unknown unknown, ih names.2]

end Flattening

/-! ## The fields of a chain -/

/-- All fields that the structs of an inheritance chain declare. -/
abbrev declaredFields (chain : List StructDecl) : List FieldDecl := chain.flatMap (·.fields)

theorem map_declarations (chain : List StructDecl) :
    (declarations chain).map (·.1) = declaredFields chain := by
  unfold declarations
  rw [List.map_flatMap]
  simp [Function.comp_def]

/-- Flattening an inheritance chain leaves one field for each name. -/
theorem names_flattenFields (chain : List StructDecl) :
    ((flattenFields chain).map (·.1.name)).Nodup :=
  (Flattening.holds_foldl (declarations chain)).nodup

/-- Flattening an inheritance chain adds no field. -/
theorem mem_flattenFields {chain : List StructDecl} {x : FieldDecl × String}
    (h : x ∈ flattenFields chain) : x.1 ∈ declaredFields chain := by
  rw [← map_declarations]
  exact List.mem_map_of_mem ((Flattening.holds_foldl _).last x h).mem

/-- Every declared name is the name of a field. -/
theorem name_mem_flattenFields {chain : List StructDecl} {f : FieldDecl}
    (h : f ∈ declaredFields chain) : f.name ∈ (flattenFields chain).map (·.1.name) := by
  rw [← map_declarations] at h
  obtain ⟨d, member, rfl⟩ := List.mem_map.1 h
  exact (Flattening.holds_foldl _).mem_names.2 (List.mem_map_of_mem member)

/-- Where no name is declared twice, flattening a chain puts all fields one after the other. -/
theorem flattenFields_of_nodup {chain : List StructDecl}
    (names : ((declaredFields chain).map (·.name)).Nodup) :
    (flattenFields chain).map (·.1) = declaredFields chain := by
  rw [← map_declarations, List.map_map] at names
  unfold flattenFields
  rw [Flattening.fields_foldl_of_nodup names, map_declarations]

/-- For every chain of structs, with names repeated in any way: each name stands once, where it was
first declared, with the definition and the struct of its last declaration; and the resolved fields
are these, numbered from zero in this order. -/
theorem inherited_fields (chain : List StructDecl) :
    ((flattenFields chain).map (·.1.name)).Nodup ∧
      (flattenFields chain).map (·.1.name) =
        ((declarations chain).map (·.1.name)).eraseDups ∧
      (∀ d ∈ flattenFields chain, LastIn (declarations chain) d) ∧
      ∀ lookup trackRef,
        (∀ i d, (flattenFields chain)[i]? = some d →
          (resolveFields lookup trackRef chain)[i]? =
            some (Field.resolve lookup trackRef d.2 i d.1)) ∧
        (resolveFields lookup trackRef chain).map (·.index) =
          List.range (flattenFields chain).length := by
  have held : Flattening.Holds (declarations chain) _ := Flattening.holds_foldl _
  refine ⟨held.nodup, held.names, held.last, fun lookup trackRef => ⟨fun i d found => ?_, ?_⟩⟩
  · unfold resolveFields
    rw [List.getElem?_mapIdx, found]
    rfl
  · refine List.ext_getElem (by simp [resolveFields]) fun i _ _ => ?_
    simp [resolveFields, Field.resolve]

/-- A field that is redefined twice keeps its place and takes the last definition. -/
example :
    let fields (names : List (String × Shape)) := names.map fun f => FieldDecl.ofShape f.1 f.2
    flattenFields
        [⟨.ofNames "" "A", none, false, fields [("x", .scalar .int32), ("y", .dynamic)]⟩,
          ⟨.ofNames "" "B", none, false, fields [("x", .scalar .string), ("z", .dynamic)]⟩,
          ⟨.ofNames "" "C", none, false, fields [("x", .dynamic)]⟩] =
      [(.ofShape "x" .dynamic, "C"), (.ofShape "y" .dynamic, "A"), (.ofShape "z" .dynamic, "B")] := by
  decide

end Graphwire
