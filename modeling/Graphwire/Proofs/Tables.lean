import Graphwire.Schema.Field
import Mathlib.Data.List.Forall2

/-!
# Tables of fields

A table is told by the values under its names. So is a record that a reader fills: each field has
the value that was read for it, unless that is null.
-/

namespace Graphwire

set_option autoImplicit false

theorem lookup_cons_ite {α : Type} (name : String) (e : String × α) (entries : List (String × α)) :
    (e :: entries).lookup name = if name = e.1 then some e.2 else entries.lookup name := by
  rw [List.lookup_cons]
  by_cases same : name = e.1
  · simp [same]
  · rw [beq_eq_false_iff_ne.2 same, if_neg same]

/-- Where no key occurs twice, looking up is being a member. -/
theorem lookup_eq_some_iff_mem {α β : Type} [BEq α] [LawfulBEq α] {entries : List (α × β)}
    (keys : (entries.map (·.1)).Nodup) {key : α} {b : β} :
    entries.lookup key = some b ↔ (key, b) ∈ entries := by
  induction entries with
  | nil => simp
  | cons e entries ih =>
    obtain ⟨absent, keys⟩ := List.nodup_cons.1 keys
    rw [List.lookup_cons, List.mem_cons]
    cases same : key == e.1 with
    | true =>
      have same := eq_of_beq same
      subst same
      have only : (e.1, b) ∉ entries := fun member => absent (List.mem_map.2 ⟨_, member, rfl⟩)
      simp [only, Prod.ext_iff, eq_comm]
    | false =>
      have ne : key ≠ e.1 := by simpa using same
      simp [ih keys, Prod.ext_iff, ne]

theorem lookup_eq_none_of_lt {α : Type} {entries : List (String × α)} {name : String}
    (after : ∀ e ∈ entries, name < e.1) : entries.lookup name = none := by
  apply List.lookup_eq_none_iff.2
  intro e he
  simpa using fun same : name = e.1 => String.lt_irrefl e.1 (same ▸ after e he)

theorem exists_forall₂ {α β : Type} {R : α → β → Prop} {xs : List α} (h : ∀ x ∈ xs, ∃ y, R x y) :
    ∃ ys, List.Forall₂ R xs ys := by
  induction xs with
  | nil => exact ⟨[], .nil⟩
  | cons x xs ih =>
    obtain ⟨⟨y, first⟩, others⟩ := List.forall_mem_cons.1 h
    obtain ⟨ys, rest⟩ := ih others
    exact ⟨y :: ys, .cons first rest⟩

theorem mem_of_forall₂ {α β : Type} {R : α → β → Prop} {xs : List α} {ys : List β} {x : α}
    (h : List.Forall₂ R xs ys) (member : x ∈ xs) : ∃ y ∈ ys, R x y := by
  induction h with
  | nil => cases member
  | cons first others ih =>
    rcases List.mem_cons.1 member with rfl | member
    · exact ⟨_, List.mem_cons_self, first⟩
    · obtain ⟨y, hy, related⟩ := ih member
      exact ⟨y, List.mem_cons_of_mem _ hy, related⟩

/-- Sorted lists with related values under every name are related entry by entry. -/
theorem forall₂_of_lookup {α β : Type} {R : α → β → Prop} {xs : List (String × α)}
    {ys : List (String × β)} (sortedXs : xs.Pairwise fun a b => a.1 < b.1)
    (sortedYs : ys.Pairwise fun a b => a.1 < b.1)
    (h : ∀ name, Option.Rel R (xs.lookup name) (ys.lookup name)) :
    List.Forall₂ (fun x y => x.1 = y.1 ∧ R x.2 y.2) xs ys := by
  induction xs generalizing ys with
  | nil =>
    cases ys with
    | nil => exact .nil
    | cons y ys => simpa [lookup_cons_ite] using h y.1
  | cons x xs ih =>
    cases ys with
    | nil => simpa [lookup_cons_ite] using h x.1
    | cons y ys =>
      obtain ⟨afterX, sortedXs⟩ := List.pairwise_cons.1 sortedXs
      obtain ⟨afterY, sortedYs⟩ := List.pairwise_cons.1 sortedYs
      have same : x.1 = y.1 := by
        refine String.le_antisymm (String.not_lt.1 fun lt => ?_) (String.not_lt.1 fun lt => ?_)
        · have missing := h y.1
          rw [lookup_eq_none_of_lt (List.forall_mem_cons.2
            ⟨lt, fun e he => String.lt_trans lt (afterX e he)⟩)] at missing
          simp [lookup_cons_ite] at missing
        · have missing := h x.1
          rw [lookup_eq_none_of_lt (List.forall_mem_cons.2
            ⟨lt, fun e he => String.lt_trans lt (afterY e he)⟩)] at missing
          simp [lookup_cons_ite] at missing
      refine .cons ⟨same, ?_⟩ (ih sortedXs sortedYs fun name => ?_)
      · simpa [lookup_cons_ite, same] using h x.1
      · by_cases this : name = x.1
        · rw [this, lookup_eq_none_of_lt afterX, same, lookup_eq_none_of_lt afterY]
          exact .none
        · simpa [lookup_cons_ite, this, same ▸ this] using h name

section

variable {α β : Type} {R : α → β → Prop} {xs : List (String × α)} {ys : List (String × β)}

theorem forall₂_entries_iff :
    List.Forall₂ (fun x y => x.1 = y.1 ∧ R x.2 y.2) xs ys ↔
      xs.map (·.1) = ys.map (·.1) ∧ List.Forall₂ R (xs.map (·.2)) (ys.map (·.2)) := by
  rw [← List.forall₂_eq_eq_eq, List.forall₂_map_left_iff, List.forall₂_map_right_iff,
    List.forall₂_map_left_iff, List.forall₂_map_right_iff]
  exact ⟨fun h => ⟨h.imp fun _ _ e => e.1, h.imp fun _ _ e => e.2⟩,
    fun ⟨names, values⟩ => names.mp (fun _ _ name value => ⟨name, value⟩) values⟩

theorem rel_lookup (h : List.Forall₂ (fun x y => x.1 = y.1 ∧ R x.2 y.2) xs ys) (name : String) :
    Option.Rel R (xs.lookup name) (ys.lookup name) := by
  induction h with
  | nil => exact .none
  | cons first others ih =>
    rw [lookup_cons_ite, lookup_cons_ite, first.1]
    split
    · exact .some first.2
    · exact ih

/-- Looking up among the entries that are kept, where no name occurs twice. -/
theorem lookup_filterMap (keep : String → α → Option β) (sorted : xs.Pairwise fun a b => a.1 < b.1)
    (name : String) :
    (xs.filterMap fun e => (keep e.1 e.2).map fun b => (e.1, b)).lookup name =
      (xs.lookup name).bind (keep name) := by
  induction xs with
  | nil => rfl
  | cons x xs ih =>
    obtain ⟨afterX, sorted⟩ := List.pairwise_cons.1 sorted
    rw [lookup_cons_ite, List.filterMap_cons]
    by_cases same : name = x.1
    · have missing : xs.lookup name = none := lookup_eq_none_of_lt (same ▸ afterX)
      cases kept : keep x.1 x.2 with
      | none =>
        rw [if_pos same, Option.bind_some, same, kept]
        exact (same ▸ ih sorted).trans (by rw [← same, missing, Option.bind_none])
      | some b => simp [same, kept]
    · cases kept : keep x.1 x.2 <;> simp [lookup_cons_ite, ih sorted, same]

theorem lookup_of_mem (sorted : xs.Pairwise fun a b => a.1 < b.1) {e : String × α} (member : e ∈ xs) :
    xs.lookup e.1 = some e.2 := by
  obtain ⟨before, after, rfl⟩ := List.append_of_mem member
  refine List.lookup_eq_some_iff.2 ⟨before, after, rfl, fun p hp => ?_⟩
  have lt := (List.pairwise_append.1 sorted).2.2 p hp e List.mem_cons_self
  simpa using fun same : e.1 = p.1 => String.lt_irrefl p.1 (same ▸ lt)

theorem mem_of_lookup {name : String} {a : α} (found : xs.lookup name = some a) : (name, a) ∈ xs := by
  obtain ⟨before, after, rfl, -⟩ := List.lookup_eq_some_iff.1 found
  simp

theorem lookup_filter (keep : String → α → Bool) (sorted : xs.Pairwise fun a b => a.1 < b.1)
    (name : String) :
    (xs.filter fun e => keep e.1 e.2).lookup name = (xs.lookup name).filter (keep name) := by
  have same : (fun e : String × α => (Option.guard (keep e.1) e.2).map fun a => (e.1, a)) =
      Option.guard fun e => keep e.1 e.2 := by
    funext e
    cases kept : keep e.1 e.2 <;> simp [Option.guard, kept]
  have entries := lookup_filterMap (fun name => Option.guard (keep name)) sorted name
  rw [same, List.filterMap_eq_filter] at entries
  rw [entries]
  cases xs.lookup name <;> simp [Option.guard, Option.filter]

theorem lookup_map (f : α → β) (xs : List (String × α)) (name : String) :
    (xs.map fun e => (e.1, f e.2)).lookup name = (xs.lookup name).map f := by
  induction xs with
  | nil => rfl
  | cons x xs ih =>
    rw [List.map_cons, lookup_cons_ite, lookup_cons_ite, ih]
    split <;> rfl

theorem sorted_filterMap (keep : String → α → Option β)
    (sorted : xs.Pairwise fun a b => a.1 < b.1) :
    (xs.filterMap fun e => (keep e.1 e.2).map fun b => (e.1, b)).Pairwise
      fun a b => a.1 < b.1 := by
  refine List.pairwise_filterMap.2 (sorted.imp fun lt a ha b hb => ?_)
  obtain ⟨_, -, rfl⟩ := Option.map_eq_some_iff.1 ha
  obtain ⟨_, -, rfl⟩ := Option.map_eq_some_iff.1 hb
  exact lt

end

namespace FieldTable

theorem ext {t u : FieldTable} (h : ∀ name, t.get? name = u.get? name) : t = u := by
  have entries := forall₂_of_lookup (R := Eq) t.sorted u.sorted fun name => by
    have same : t.entries.lookup name = u.entries.lookup name := h name
    rw [same]
    cases u.entries.lookup name <;> simp
  have same : t.entries = u.entries := by
    rw [← List.forall₂_eq_eq_eq]
    exact entries.imp fun x y ⟨name, value⟩ => Prod.ext name value
  obtain ⟨_, _⟩ := t
  obtain ⟨_, _⟩ := u
  cases same
  rfl

theorem lookup_insertEntry (name other : String) (v : Value) (entries : List (String × Value)) :
    (insertEntry name v entries).lookup other =
      if other = name then some v else entries.lookup other := by
  induction entries with
  | nil => simp [insertEntry, lookup_cons_ite]
  | cons e entries ih =>
    simp only [insertEntry]
    split
    · rw [lookup_cons_ite]
    · split
      · rename_i same
        by_cases this : other = name <;> simp [lookup_cons_ite, this, ← same]
      · rename_i other_name
        by_cases this : other = e.1
        · subst this
          simp [lookup_cons_ite, Ne.symm other_name]
        · simp [lookup_cons_ite, this, ih]

theorem get?_set (t : FieldTable) (name other : String) (v : Value) :
    (t.set name v).get? other = if other = name then some v else t.get? other :=
  lookup_insertEntry name other v t.entries

/-- The entries that are kept. -/
def filter (t : FieldTable) (keep : String → Value → Bool) : FieldTable :=
  ⟨t.entries.filter fun e => keep e.1 e.2, t.sorted.filter _⟩

theorem get?_filter (t : FieldTable) (keep : String → Value → Bool) (name : String) :
    (t.filter keep).get? name = (t.get? name).filter (keep name) :=
  lookup_filter keep t.sorted name

theorem get?_mapValues (t : FieldTable) (f : Value → Value) (name : String) :
    (t.mapValues f).get? name = (t.get? name).map f :=
  lookup_map f t.entries name

end FieldTable

namespace Record

/-- Sets a field, unless the value is null. -/
def put (r : Record) (name : String) (v : Value) : Record := if v.isNull then r else r.set name v

theorem typeName_put (r : Record) (name : String) (v : Value) :
    (r.put name v).typeName = r.typeName := by
  unfold put
  split <;> rfl

theorem get?_set (r : Record) (name other : String) (v : Value) :
    (r.set name v).get? other = if other = name then some v else r.get? other :=
  r.fields.get?_set name other v

theorem get?_put (r : Record) (name other : String) (v : Value) :
    (r.put name v).get? other = if other = name ∧ v.isNull = false then some v else r.get? other := by
  unfold put
  cases null : v.isNull <;> simp [get?_set]

/-- What becomes of a record when every field in turn is set to a value of which the condition
holds, unless the value is null. -/
structure Filled (P : Field → Value → Prop) (fields : List Field) (r r' : Record) : Prop where
  typeName : r'.typeName = r.typeName
  other : ∀ name, name ∉ fields.map (·.name) → r'.get? name = r.get? name
  field : ∀ f ∈ fields, ∃ v, P f v ∧ r'.get? f.name = if v.isNull then r.get? f.name else some v

variable {P : Field → Value → Prop} {f : Field} {fields : List Field} {r r' : Record}

theorem Filled.nil : Filled P [] r r :=
  ⟨rfl, fun _ _ => rfl, fun _ member => absurd member List.not_mem_nil⟩

theorem Filled.cons {v : Value} (first : P f v) (fresh : f.name ∉ fields.map (·.name))
    (others : Filled P fields (r.put f.name v) r') : Filled P (f :: fields) r r' := by
  refine ⟨others.typeName.trans (typeName_put ..), fun name absent => ?_, fun f' member => ?_⟩
  · obtain ⟨ne, absent⟩ := not_or.1 (mt List.mem_cons.2 absent)
    rw [others.other name absent, get?_put, if_neg fun same => ne same.1]
  · rcases List.mem_cons.1 member with rfl | member
    · refine ⟨v, first, ?_⟩
      rw [others.other _ fresh, get?_put]
      cases v.isNull <;> simp
    · obtain ⟨w, holds, value⟩ := others.field f' member
      have ne : f'.name ≠ f.name := fun same => fresh (same ▸ List.mem_map_of_mem member)
      refine ⟨w, holds, ?_⟩
      rw [value, get?_put, if_neg (c := f'.name = f.name ∧ _) fun same => ne same.1]

end Record

end Graphwire
