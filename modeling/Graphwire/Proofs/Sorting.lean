import Graphwire.Proofs.Structs
import Mathlib.Data.List.Nodup
import Mathlib.Tactic.Tauto

/-!
# Sorted fields

Fingerprint and canonical order depend on fields only through what the sorting compares. Two lists
of fields that are compared alike, position by position, are put into the same order, and where no
two fields of a struct have the same key the order they start from does not matter.
-/

namespace Graphwire

set_option autoImplicit false

/-! ## Lists that are compared alike -/

section

variable {α : Type} {le : α → α → Bool}

/-- Pairs in the order of their first parts, which is the order of their second parts too. -/
theorem mergeSort_pairs {pairs : List (α × α)}
    (alike : ∀ p ∈ pairs, ∀ q ∈ pairs, le p.1 q.1 = le p.2 q.2) :
    ((pairs.mergeSort fun p q => le p.1 q.1).map (·.1) = (pairs.map (·.1)).mergeSort le) ∧
      (pairs.mergeSort fun p q => le p.1 q.1).map (·.2) = (pairs.map (·.2)).mergeSort le :=
  ⟨List.map_mergeSort fun _ _ _ _ => rfl, List.map_mergeSort alike⟩

/-- Where no two members are equal to the order, it does not matter how the list starts. -/
theorem mergeSort_eq_of_perm (trans : ∀ a b c, le a b → le b c → le a c)
    (total : ∀ a b, le a b || le b a) {items others : List α} (perm : items.Perm others)
    (antisymm : ∀ a ∈ items, ∀ b ∈ items, le a b → le b a → a = b) :
    items.mergeSort le = others.mergeSort le := by
  refine List.Perm.eq_of_pairwise (fun a b ha hb => ?_) (List.pairwise_mergeSort trans total items)
    (List.pairwise_mergeSort trans total others)
    ((List.mergeSort_perm ..).trans (perm.trans (List.mergeSort_perm ..).symm))
  exact antisymm a (List.mem_mergeSort.1 ha) b (perm.mem_iff.2 (List.mem_mergeSort.1 hb))

/-- In a list without repetition that is in order, the order is the one of positions. -/
theorem le_getElem_eq (total : ∀ a b, le a b || le b a) {items : List α}
    (sorted : items.Pairwise fun a b => le a b) (nodup : items.Nodup)
    (antisymm : ∀ a ∈ items, ∀ b ∈ items, le a b → le b a → a = b) {i j : Nat}
    (hi : i < items.length) (hj : j < items.length) : le items[i] items[j] = decide (i ≤ j) := by
  have ordered := List.pairwise_iff_getElem.1 sorted
  rcases Nat.lt_trichotomy i j with lt | rfl | gt
  · simpa [Nat.le_of_lt lt] using ordered i j hi hj lt
  · simpa using total items[i] items[i]
  · have ne : items[j] ≠ items[i] := fun same => Nat.ne_of_lt gt (nodup.getElem_inj_iff.1 same)
    have back := ordered j i hj hi gt
    have not : le items[i] items[j] ≠ true := fun forth =>
      ne (antisymm _ (List.getElem_mem hj) _ (List.getElem_mem hi) back forth)
    simpa [Nat.not_le.2 gt] using not

end

/-! ## The order of fields -/

namespace Field

theorem precedes_total (a b : Field) : (a.precedes b || b.precedes a) = true := by
  unfold precedes
  cases ha : a.tag.isSome <;> cases hb : b.tag.isSome <;> simp [String.le_total]

theorem precedes_trans (a b c : Field) (hab : a.precedes b = true) (hbc : b.precedes c = true) :
    a.precedes c = true := by
  unfold precedes at hab hbc ⊢
  cases ha : a.tag.isSome <;> cases hb : b.tag.isSome <;> cases hc : c.tag.isSome <;>
    simp_all
  · exact String.le_trans hab hbc
  · exact String.le_trans hab hbc

theorem precedes_antisymm {a b : Field} (hab : a.precedes b = true) (hba : b.precedes a = true) :
    a.tag.isSome = b.tag.isSome ∧ a.key = b.key := by
  unfold precedes at hab hba
  cases ha : a.tag.isSome <;> cases hb : b.tag.isSome <;> simp_all
  · exact String.le_antisymm hab hba
  · exact String.le_antisymm hab hba

/-- The order of primitive fields: what goes before, in the first place where two fields differ. -/
theorem precedesPrimitive_iff {a b : Field} : a.precedesPrimitive b = true ↔
    (a.type.isCompressed = false ∧ b.type.isCompressed = true) ∨
      a.type.isCompressed = b.type.isCompressed ∧
        (b.type.primitiveSize < a.type.primitiveSize ∨
          a.type.primitiveSize = b.type.primitiveSize ∧
            (b.type.code < a.type.code ∨ a.type.code = b.type.code ∧ a.precedes b = true)) := by
  unfold precedesPrimitive
  split_ifs with compressed size code
  · cases ha : a.type.isCompressed <;> cases hb : b.type.isCompressed <;> simp_all
  · simp only [ne_eq, not_not] at compressed
    simp [compressed, size]
  · simp only [ne_eq, not_not] at compressed size
    simp [compressed, size, code]
  · simp only [ne_eq, not_not] at compressed size code
    simp [compressed, size, code]

theorem precedesPrimitive_total (a b : Field) :
    (a.precedesPrimitive b || b.precedesPrimitive a) = true := by
  have total := precedes_total a b
  rw [Bool.or_eq_true] at total ⊢
  rw [precedesPrimitive_iff, precedesPrimitive_iff]
  grind

theorem precedesPrimitive_trans (a b c : Field) (hab : a.precedesPrimitive b = true)
    (hbc : b.precedesPrimitive c = true) : a.precedesPrimitive c = true := by
  rw [precedesPrimitive_iff] at hab hbc ⊢
  have trans := precedes_trans a b c
  grind

theorem precedesPrimitive_antisymm {a b : Field} (hab : a.precedesPrimitive b = true)
    (hba : b.precedesPrimitive a = true) : a.tag.isSome = b.tag.isSome ∧ a.key = b.key := by
  rw [precedesPrimitive_iff] at hab hba
  have both : a.precedes b = true ∧ b.precedes a = true := by grind
  exact precedes_antisymm both.1 both.2

end Field

/-- Whether no two fields have one text as their key, tagged ones and others taken apart. -/
def KeyedApart (fields : List Field) : Prop :=
  ∀ a ∈ fields, ∀ b ∈ fields, a.tag.isSome = b.tag.isSome ∧ a.key = b.key → a = b

theorem TypeId.forFingerprint_of_isUser {t : TypeId} (user : t.isUser = true) :
    t.forFingerprint = .unknown := by
  have : t.isPolymorphic || t.isEnum || t.isUnion := by
    simp only [isUser, isPolymorphic, Bool.or_eq_true, List.contains_eq_mem,
      decide_eq_true_eq, List.mem_cons, List.not_mem_nil, or_false] at user ⊢
    tauto
  exact if_pos this

variable {fields fields' : List Field}

theorem fingerprint_of_perm (apart : KeyedApart fields) (perm : fields.Perm fields') :
    fingerprint fields = fingerprint fields' := by
  unfold fingerprint
  rw [mergeSort_eq_of_perm Field.precedes_trans Field.precedes_total perm
    fun a ha b hb hab hba => apart a ha b hb (Field.precedes_antisymm hab hba)]

/-- The canonical order does not depend on the order of declaration. -/
theorem canonicalOrder_of_perm (apart : KeyedApart fields) (perm : fields.Perm fields') :
    canonicalOrder fields = canonicalOrder fields' := by
  unfold canonicalOrder
  congr 1
  funext group
  have perm := perm.filter fun f => decide (FieldGroup.ofField f = group)
  have apart : KeyedApart (fields.filter fun f => decide (FieldGroup.ofField f = group)) :=
    fun a ha b hb => apart a (List.mem_filter.1 ha).1 b (List.mem_filter.1 hb).1
  unfold groupFields
  split
  · exact mergeSort_eq_of_perm Field.precedesPrimitive_trans Field.precedesPrimitive_total perm
      fun a ha b hb hab hba => apart a ha b hb (Field.precedesPrimitive_antisymm hab hba)
  · exact mergeSort_eq_of_perm Field.precedes_trans Field.precedes_total perm
      fun a ha b hb hab hba => apart a ha b hb (Field.precedes_antisymm hab hba)

/-- Fields of one group that are in its order are in the canonical one. -/
theorem canonicalOrder_of_group (group : FieldGroup)
    (members : ∀ f ∈ fields, FieldGroup.ofField f = group)
    (sorted : fields.Pairwise fun a b =>
      (if group.isPrimitive then Field.precedesPrimitive else Field.precedes) a b) :
    canonicalOrder fields = fields := by
  have part (g : FieldGroup) : groupFields g fields = if g = group then fields else [] := by
    unfold groupFields
    by_cases same : g = group
    · have all : fields.filter (fun f => decide (FieldGroup.ofField f = g)) = fields :=
        List.filter_eq_self.2 fun f member => by simp [members f member, same]
      rw [all, same, List.mergeSort_of_pairwise sorted, if_pos rfl]
    · have none : fields.filter (fun f => decide (FieldGroup.ofField f = g)) = [] :=
        List.filter_eq_nil_iff.2 fun f member => by simp [members f member, Ne.symm same]
      rw [none, List.mergeSort_nil, if_neg same]
  unfold canonicalOrder
  simp only [part]
  cases group <;> simp [FieldGroup.all]

/-! ## Fields that are compared alike -/

/-- Whether fields at the same position stand in the same order towards all others. -/
def ComparedAlike (pairs : List (Field × Field)) : Prop :=
  ∀ p ∈ pairs, ∀ q ∈ pairs, p.1.precedes q.1 = p.2.precedes q.2

/-- Fields that are compared alike have one fingerprint if their entries are the same. -/
theorem fingerprint_pairs {pairs : List (Field × Field)} (alike : ComparedAlike pairs)
    (entries : ∀ p ∈ pairs, p.1.fingerprint = p.2.fingerprint) :
    fingerprint (pairs.map (·.1)) = fingerprint (pairs.map (·.2)) := by
  obtain ⟨first, second⟩ := mergeSort_pairs alike
  unfold fingerprint
  rw [← first, ← second, List.map_map, List.map_map]
  refine congrArg String.join (List.map_congr_left fun p member => ?_)
  exact entries p (List.mem_mergeSort.1 member)

theorem FieldGroup.isPrimitive_ofField {f : Field} (h : (ofField f).isPrimitive = true) :
    f.type.isPrimitive = true := by
  unfold ofField at h
  split at h
  · assumption
  · split_ifs at h <;> cases h

/-- The pairs of a group in its order. -/
theorem groupFields_pairs {pairs : List (Field × Field)} (alike : ComparedAlike pairs)
    (groups : ∀ p ∈ pairs, FieldGroup.ofField p.1 = FieldGroup.ofField p.2)
    (types : ∀ p ∈ pairs, p.1.type.isPrimitive = true → p.1.type = p.2.type) (group : FieldGroup) :
    ∃ sorted : List (Field × Field), (∀ p ∈ sorted, p ∈ pairs) ∧
      groupFields group (pairs.map (·.1)) = sorted.map (·.1) ∧
      groupFields group (pairs.map (·.2)) = sorted.map (·.2) := by
  let members := pairs.filter fun p => decide (FieldGroup.ofField p.1 = group)
  have mem : ∀ p ∈ members, p ∈ pairs ∧ FieldGroup.ofField p.1 = group := fun p member => by
    simpa [members] using member
  have first : (pairs.map (·.1)).filter (fun f => decide (FieldGroup.ofField f = group)) =
      members.map (·.1) := List.filter_map ..
  have second : (pairs.map (·.2)).filter (fun f => decide (FieldGroup.ofField f = group)) =
      members.map (·.2) := by
    rw [List.filter_map]
    refine congrArg (List.map _) (List.filter_congr fun p member => ?_)
    simp only [Function.comp, groups p member]
  unfold groupFields
  rw [first, second]
  split
  · rename_i primitive
    have compared : ∀ p ∈ members, ∀ q ∈ members,
        p.1.precedesPrimitive q.1 = p.2.precedesPrimitive q.2 := by
      intro p hp q hq
      have type : ∀ p ∈ members, p.1.type = p.2.type := fun p hp =>
        types p (mem p hp).1 (FieldGroup.isPrimitive_ofField ((mem p hp).2 ▸ primitive))
      simp only [Field.precedesPrimitive, type p hp, type q hq, alike p (mem p hp).1 q (mem q hq).1]
    obtain ⟨sortedFirst, sortedSecond⟩ := mergeSort_pairs compared
    exact ⟨_, fun p member => (mem p (List.mem_mergeSort.1 member)).1, sortedFirst.symm,
      sortedSecond.symm⟩
  · have compared : ∀ p ∈ members, ∀ q ∈ members, p.1.precedes q.1 = p.2.precedes q.2 :=
      fun p hp q hq => alike p (mem p hp).1 q (mem q hq).1
    obtain ⟨sortedFirst, sortedSecond⟩ := mergeSort_pairs compared
    exact ⟨_, fun p member => (mem p (List.mem_mergeSort.1 member)).1, sortedFirst.symm,
      sortedSecond.symm⟩

/-- Fields that are compared alike, of the same groups and types, end up at the same positions. -/
theorem canonicalOrder_pairs {pairs : List (Field × Field)} (alike : ComparedAlike pairs)
    (groups : ∀ p ∈ pairs, FieldGroup.ofField p.1 = FieldGroup.ofField p.2)
    (types : ∀ p ∈ pairs, p.1.type.isPrimitive = true → p.1.type = p.2.type) :
    ∃ sorted : List (Field × Field), (∀ p ∈ sorted, p ∈ pairs) ∧
      canonicalOrder (pairs.map (·.1)) = sorted.map (·.1) ∧
      canonicalOrder (pairs.map (·.2)) = sorted.map (·.2) := by
  unfold canonicalOrder
  induction FieldGroup.all with
  | nil => exact ⟨[], fun _ h => absurd h List.not_mem_nil, rfl, rfl⟩
  | cons group others ih =>
    obtain ⟨sorted, mem, first, second⟩ := groupFields_pairs alike groups types group
    obtain ⟨rest, memRest, firstRest, secondRest⟩ := ih
    refine ⟨sorted ++ rest, List.forall_mem_append.2 ⟨mem, memRest⟩, ?_, ?_⟩
    · rw [List.flatMap_cons, first, firstRest, List.map_append]
    · rw [List.flatMap_cons, second, secondRest, List.map_append]

end Graphwire
