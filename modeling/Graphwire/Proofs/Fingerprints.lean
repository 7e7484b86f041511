import Graphwire.Proofs.Peers
import Graphwire.Proofs.Registrations
import Graphwire.Proofs.Sorting
import Mathlib.Data.List.Forall2
import Mathlib.Data.List.Pairwise
import Mathlib.Tactic.Tauto

/-!
# What fingerprints tell

A fingerprint can be taken apart where no name holds the character that ends an entry: structs of one
fingerprint have the same keys, markers and outermost types at the same canonical positions. It says
nothing about the parts of containers, about which registered type is meant, or about fields that
are marked dynamic.
-/

namespace Graphwire

set_option autoImplicit false

/-! ## Taking texts apart -/

section

variable {α : Type} {sep : α}

theorem eq_of_append_sep {x y r r' : List α} (hx : sep ∉ x) (hy : sep ∉ y)
    (same : x ++ sep :: r = y ++ sep :: r') : x = y ∧ r = r' := by
  induction x generalizing y with
  | nil =>
    cases y with
    | nil => exact ⟨rfl, List.tail_eq_of_cons_eq same⟩
    | cons b y => exact absurd (List.head_eq_of_cons_eq same ▸ List.mem_cons_self) hy
  | cons a x ih =>
    cases y with
    | nil => exact absurd (List.head_eq_of_cons_eq same ▸ List.mem_cons_self) hx
    | cons b y =>
      obtain ⟨rfl, tails⟩ := List.cons_eq_cons.1 same
      obtain ⟨rfl, rest⟩ := ih (fun h => hx (List.mem_cons_of_mem _ h))
        (fun h => hy (List.mem_cons_of_mem _ h)) tails
      exact ⟨rfl, rest⟩

/-- Pieces that do not hold a separator can be told apart when one ends every piece. -/
theorem eq_of_flatten_terminated {pieces pieces' : List (List α)} (h : ∀ x ∈ pieces, sep ∉ x)
    (h' : ∀ x ∈ pieces', sep ∉ x)
    (same : (pieces.map (· ++ [sep])).flatten = (pieces'.map (· ++ [sep])).flatten) :
    pieces = pieces' := by
  induction pieces generalizing pieces' with
  | nil =>
    cases pieces' with
    | nil => rfl
    | cons y pieces' => simp at same
  | cons x pieces ih =>
    cases pieces' with
    | nil => simp at same
    | cons y pieces' =>
      obtain ⟨hx, h⟩ := List.forall_mem_cons.1 h
      obtain ⟨hy, others⟩ := List.forall_mem_cons.1 h'
      simp only [List.map_cons, List.flatten_cons, List.append_assoc, List.singleton_append] at same
      obtain ⟨rfl, rest⟩ := eq_of_append_sep hx hy same
      rw [ih h others rest]

end

/-! ## Entries -/

/-- Whether the name of a field can stand in a fingerprint: the character that ends an entry is not
in it, unless a tag takes its place. -/
def Field.Plain (f : Field) : Prop := f.tag = none → ';' ∉ f.name.toList

instance Field.decidablePlain (f : Field) : Decidable f.Plain := by
  unfold Field.Plain
  infer_instance

/-- What a fingerprint tells of a field. -/
structure Field.SameEntry (f g : Field) : Prop where
  key : f.key = g.key
  type : f.type.forFingerprint = g.type.forFingerprint
  refEligible : f.refEligible = g.refEligible
  nullable : f.nullable = g.nullable

/-- The characters of a field's entry before the one that ends it. -/
def Field.entry (f : Field) : List Char :=
  (f.key.toList ++ ',' :: (toString f.type.forFingerprint.code).toList) ++
    [',', if f.refEligible then '1' else '0', ',', if f.nullable then '1' else '0']

theorem Field.toList_fingerprint (f : Field) : f.fingerprint.toList = f.entry ++ [';'] := by
  unfold Field.fingerprint Field.entry
  cases f.refEligible <;> cases f.nullable <;> simp

theorem isDigit_of_mem_toString {n : Nat} {c : Char} (h : c ∈ (toString n).toList) :
    c.isDigit = true := by
  have h : c ∈ n.repr.toList := h
  rw [Nat.toList_repr] at h
  exact Nat.isDigit_of_mem_toDigits (by decide) (by decide) h

theorem not_mem_toString {n : Nat} {c : Char} (other : c.isDigit = false) :
    c ∉ (toString n).toList := fun h => by
  rw [isDigit_of_mem_toString h] at other
  cases other

theorem Field.plain_entry {f : Field} (plain : f.Plain) (nonneg : ∀ t, f.tag = some t → 0 ≤ t) :
    ';' ∉ f.entry := by
  have key : ';' ∉ f.key.toList := by
    unfold Field.key
    cases tag : f.tag with
    | none => exact plain tag
    | some t =>
      obtain ⟨n, rfl⟩ := Int.eq_ofNat_of_zero_le (nonneg t tag)
      exact not_mem_toString (by decide)
  have code : ';' ∉ (toString f.type.forFingerprint.code).toList := not_mem_toString (by decide)
  unfold Field.entry
  cases f.refEligible <;> cases f.nullable <;> simpa [key] using code

theorem toString_nat_injective {m n : Nat} (same : toString m = toString n) : m = n := by
  have digits : Nat.toDigits 10 m = Nat.toDigits 10 n := by
    rw [← Nat.toList_repr, ← Nat.toList_repr]
    exact congrArg String.toList same
  rw [← Nat.ofDigitChars_ten_toDigits (n := m), digits, Nat.ofDigitChars_ten_toDigits]

/-- Only the text of a negative number starts with a sign. -/
theorem toString_int_injective {a b : Int} (same : toString a = toString b) : a = b := by
  have signed (m n : Nat) : toString (Int.ofNat m) ≠ toString (Int.negSucc n) := fun same => by
    have sign : '-' ∈ (toString (Int.negSucc n)).toList := by
      simp [show toString (Int.negSucc n) = "-" ++ toString (n + 1) from rfl]
    exact not_mem_toString (n := m) (by decide) (same ▸ sign)
  cases a with
  | ofNat m =>
    cases b with
    | ofNat n => exact congrArg Int.ofNat (toString_nat_injective same)
    | negSucc n => exact absurd same (signed m n)
  | negSucc m =>
    cases b with
    | ofNat n => exact absurd same.symm (signed n m)
    | negSucc n =>
      have texts : toString (m + 1) = toString (n + 1) := String.append_right_inj "-" |>.1 same
      exact congrArg Int.negSucc (Nat.succ.inj (toString_nat_injective texts))

theorem Field.sameEntry_of_entry {f g : Field} (same : f.entry = g.entry) : f.SameEntry g := by
  obtain ⟨front, flags⟩ := List.append_inj' same rfl
  have front := congrArg List.reverse front
  simp only [List.reverse_append, List.reverse_cons, List.append_assoc, List.singleton_append]
    at front
  obtain ⟨digits, key⟩ := eq_of_append_sep (by simpa using not_mem_toString (by decide))
    (by simpa using not_mem_toString (by decide)) front
  have code := toString_nat_injective (String.toList_injective (List.reverse_injective digits))
  refine ⟨String.toList_injective (List.reverse_injective key), congrArg TypeId.mk code, ?_, ?_⟩
  · cases hf : f.refEligible <;> cases hg : g.refEligible <;> simp [hf, hg] at flags ⊢
  · cases hf : f.nullable <;> cases hg : g.nullable <;> simp [hf, hg] at flags ⊢

/-- Whether the entries of fields can be told apart. -/
def Legible (fields : List Field) : Prop :=
  ∀ f ∈ fields, f.Plain ∧ ∀ t, f.tag = some t → 0 ≤ t

/-- Structs of one fingerprint have the same entries in the order of their keys. -/
theorem sameEntries_of_fingerprint {fields fields' : List Field} (legible : Legible fields)
    (legible' : Legible fields') (same : fingerprint fields = fingerprint fields') :
    List.Forall₂ Field.SameEntry (fields.mergeSort Field.precedes)
      (fields'.mergeSort Field.precedes) := by
  have text : ∀ fields : List Field, (fingerprint fields).toList =
      (((fields.mergeSort Field.precedes).map Field.entry).map (· ++ [';'])).flatten := by
    intro fields
    unfold fingerprint
    rw [String.toList_join, List.flatMap_def, List.map_map, List.map_map]
    exact congrArg List.flatten (List.map_congr_left fun f _ => f.toList_fingerprint)
  have pieces : ∀ fields : List Field, Legible fields →
      ∀ x ∈ (fields.mergeSort Field.precedes).map Field.entry, ';' ∉ x := by
    intro fields legible x member
    obtain ⟨f, hf, rfl⟩ := List.mem_map.1 member
    obtain ⟨plain, nonneg⟩ := legible f (List.mem_mergeSort.1 hf)
    exact f.plain_entry plain nonneg
  have entries := eq_of_flatten_terminated (pieces fields legible) (pieces fields' legible')
    (by rw [← text, ← text, same])
  rw [← List.forall₂_eq_eq_eq, List.forall₂_map_left_iff, List.forall₂_map_right_iff] at entries
  exact entries.imp fun f g => Field.sameEntry_of_entry

/-! ## Types that a fingerprint tells -/

namespace TypeId

/-- Types that enter a fingerprint as the unknown one. -/
theorem open_cases {t : TypeId} (h : t.forFingerprint = .unknown) :
    t = .unknown ∨ t.isUser = true := by
  unfold forFingerprint at h
  split at h
  · rename_i kinds
    simp only [isPolymorphic, isUser, Bool.or_eq_true, List.contains_eq_mem, decide_eq_true_eq,
      List.mem_cons, List.not_mem_nil, or_false] at kinds ⊢
    tauto
  · exact .inl h

theorem forFingerprint_of_ne {t : TypeId} (other : t.forFingerprint ≠ t) :
    t.forFingerprint = .unknown := by
  unfold forFingerprint at other ⊢
  split
  · rfl
  · rename_i closed
    exact absurd (if_neg closed) other

theorem forFingerprint_cases {t u : TypeId} (same : t.forFingerprint = u.forFingerprint) :
    t = u ∨ t.forFingerprint = .unknown ∧ u.forFingerprint = .unknown := by
  by_cases unknown : t.forFingerprint = .unknown
  · exact .inr ⟨unknown, same ▸ unknown⟩
  · have itself : ∀ t : TypeId, t.forFingerprint ≠ .unknown → t.forFingerprint = t :=
      fun t known => by_contra fun other => known (forFingerprint_of_ne other)
    exact .inl ((itself t unknown).symm.trans (same.trans (itself u (same ▸ unknown))))

end TypeId

theorem FieldGroup.ofField_open {f : Field} (h : f.type.forFingerprint = .unknown) :
    FieldGroup.ofField f = .other := by
  have kinds : f.type.isPrimitive = false ∧ f.type ≠ .list ∧ f.type ≠ .set ∧ f.type ≠ .map ∧
      f.type.isInternal = false := by
    rcases TypeId.open_cases h with unknown | user
    · rw [unknown]
      decide
    · simp only [TypeId.isUser, TypeId.isEnum, TypeId.isUnion, TypeId.isStruct, Bool.or_eq_true,
        List.contains_iff_mem, List.mem_cons, List.not_mem_nil, or_false] at user
      rcases user with ((((user | user) | user | user | user) | user | user | user | user) | user |
        user) <;> (rw [user]; decide)
  obtain ⟨primitive, list, set, map, internal⟩ := kinds
  unfold FieldGroup.ofField
  simp [primitive, list, set, map, internal]

namespace Field.SameEntry

variable {f g : Field}

theorem group (same : f.SameEntry g) : FieldGroup.ofField f = FieldGroup.ofField g := by
  rcases TypeId.forFingerprint_cases same.type with type | ⟨hf, hg⟩
  · rw [FieldGroup.ofField, FieldGroup.ofField, type, same.nullable]
  · rw [FieldGroup.ofField_open hf, FieldGroup.ofField_open hg]

theorem primitive (same : f.SameEntry g) (primitive : f.type.isPrimitive = true) :
    f.type = g.type := by
  rcases TypeId.forFingerprint_cases same.type with type | ⟨hf, -⟩
  · exact type
  · rcases TypeId.open_cases hf with unknown | user
    · rw [unknown] at primitive
      cases primitive
    · have other := FieldGroup.ofField_open hf
      unfold FieldGroup.ofField at other
      rw [if_pos primitive] at other
      split at other <;> cases other

end Field.SameEntry

/-! ## Canonical positions -/

/-- Where no two fields have one key, the texts of the keys tell them apart. -/
theorem keyedApart_of_distinct {fields : List Field} (keys : DistinctKeys fields) :
    KeyedApart fields := by
  rintro a ha b hb ⟨tagged, key⟩
  by_contra other
  have symm : Std.Symm fun a b : Field => ¬a.SameKey b := ⟨fun a b h same => h same.symm⟩
  refine List.Pairwise.forall keys ha hb other ?_
  unfold Field.key at key
  cases tag : a.tag with
  | none =>
    have tag' : b.tag = none := by simpa [tag] using tagged
    rw [tag, tag'] at key
    exact ⟨tag.trans tag'.symm, fun _ => key⟩
  | some t =>
    obtain ⟨u, tag'⟩ : ∃ u, b.tag = some u := Option.isSome_iff_exists.1 (by simp [← tagged, tag])
    rw [tag, tag'] at key
    exact ⟨by rw [tag, tag', toString_int_injective key], fun untagged => by simp [tag] at untagged⟩

/-- Whether the entries of fields can be told apart, and none has the key of another one. -/
structure Distinguishable (fields : List Field) : Prop where
  legible : Legible fields
  apart : KeyedApart fields
  nodup : fields.Nodup

/-- Whether fields stand in the order of their keys, each at its only position. -/
def Positioned (fields : List Field) : Prop :=
  ∀ (i j : Nat) (hi : i < fields.length) (hj : j < fields.length),
    fields[i].precedes fields[j] = decide (i ≤ j)

theorem Distinguishable.positioned {fields : List Field} (h : Distinguishable fields) :
    Positioned (fields.mergeSort Field.precedes) := by
  intro i j hi hj
  refine le_getElem_eq Field.precedes_total
    (List.pairwise_mergeSort Field.precedes_trans Field.precedes_total fields)
    ((List.mergeSort_perm ..).nodup_iff.2 h.nodup) (fun a ha b hb hab hba => ?_) hi hj
  exact h.apart a (List.mem_mergeSort.1 ha) b (List.mem_mergeSort.1 hb)
    (Field.precedes_antisymm hab hba)

/-- Where keys decide, fields are compared like the fields at the same position. -/
theorem Positioned.comparedAlike {fields fields' : List Field} (h : Positioned fields)
    (h' : Positioned fields') : ComparedAlike (fields.zip fields') := by
  intro p hp q hq
  obtain ⟨i, hi, rfl⟩ := List.getElem_of_mem hp
  obtain ⟨j, hj, rfl⟩ := List.getElem_of_mem hq
  rw [List.length_zip] at hi hj
  rw [List.getElem_zip, List.getElem_zip, h i j (by omega) (by omega), h' i j (by omega) (by omega)]

/-- Structs of one fingerprint have the same entries at the same canonical positions. -/
theorem sameEntries_canonical {fields fields' : List Field} (h : Distinguishable fields)
    (h' : Distinguishable fields') (same : fingerprint fields = fingerprint fields') :
    List.Forall₂ Field.SameEntry (canonicalOrder fields) (canonicalOrder fields') := by
  obtain ⟨length, entries⟩ := List.forall₂_iff_zip.1
    (sameEntries_of_fingerprint h.legible h'.legible same)
  have alike := h.positioned.comparedAlike h'.positioned
  rw [canonicalOrder_of_perm h.apart (List.mergeSort_perm fields Field.precedes).symm,
    canonicalOrder_of_perm h'.apart (List.mergeSort_perm fields' Field.precedes).symm]
  generalize fields.mergeSort Field.precedes = sorted at length entries alike ⊢
  generalize fields'.mergeSort Field.precedes = sorted' at length entries alike ⊢
  obtain ⟨pairs, mem, first, second⟩ := canonicalOrder_pairs alike
    (fun p hp => (entries hp).group) (fun p hp => (entries hp).primitive)
  rw [List.map_fst_zip (by omega)] at first
  rw [List.map_snd_zip (by omega)] at second
  rw [first, second, List.forall₂_map_left_iff, List.forall₂_map_right_iff, List.forall₂_same]
  exact fun p hp => entries (mem p hp)

/-! ## Layouts -/

/-- The outermost type of a shape: a shape without the parts of containers, in which names and
dynamic shapes are the same. -/
def Shape.outline : Shape → Shape
  | .scalar t => .scalar t
  | .list _ => .list .dynamic
  | .set _ => .set .dynamic
  | .map .. => .map .dynamic .dynamic
  | .named _ | .dynamic => .dynamic

/-- The outermost shape of a type that enters a fingerprint. -/
def TypeId.outline (t : TypeId) : Shape :=
  if t = .list then .list .dynamic
  else if t = .set then .set .dynamic
  else if t = .map then .map .dynamic .dynamic
  else if t = .unknown then .dynamic
  else .scalar t

/-- Whether fields are laid out alike, as far as a fingerprint tells: they have the same key, the same
marker and the same outermost type. -/
structure Field.LaidOutAlike (f g : Field) : Prop where
  key : f.key = g.key
  nullable : f.nullable = g.nullable
  refEligible : f.refEligible = g.refEligible
  marker : f.refMode = g.refMode
  outline : f.shape.outline = g.shape.outline

/-- The outermost type follows from what enters the fingerprint. -/
theorem Shape.outline_of_type {lookup : NamedLookup} (registered : lookup.Registered) {s : Shape}
    (declarable : s.undeclarable? = none) :
    s.outline = (s.typeId lookup).forFingerprint.outline := by
  cases s with
  | list | set | map | dynamic => rfl
  | named name =>
    simp only [typeId]
    cases known : lookup name with
    | none => rfl
    | some info =>
      simp only [Option.elim_some, TypeId.forFingerprint_of_isUser (registered name info known)]
      rfl
  | scalar t =>
    have declared : t.isDeclarable = true := by simpa [undeclarable?] using declarable
    have known : t ≠ .unknown := by
      rintro rfl
      cases declared
    have itself : t.forFingerprint = t := by
      by_contra other
      rcases TypeId.open_cases (TypeId.forFingerprint_of_ne other) with unknown | user
      · exact known unknown
      · rw [TypeId.isDeclarable_of_isUser user] at declared
        cases declared
    obtain ⟨list, set, map⟩ := TypeId.not_container (TypeId.bound_of_isDeclarable declared).2
    simp only [typeId, itself, TypeId.outline, list, set, map, known, if_false]
    rfl

/-- Fields of one outermost shape are of the same fixed width, unless only one carries its type. -/
theorem Field.LaidOutAlike.fixedWidth?_eq {f g : Field} (alike : f.LaidOutAlike g)
    (dynamic : f.dynamic = g.dynamic) : f.fixedWidth? = g.fixedWidth? := by
  have outline := alike.outline
  unfold Field.fixedWidth?
  rw [alike.marker, dynamic]
  cases hf : f.shape <;> cases hg : g.shape <;> rw [hf, hg] at outline <;> cases outline
  all_goals rfl

theorem planFrom_congr {fields fields' : List Field}
    (widths : List.Forall₂ (fun f g => f.fixedWidth? = g.fixedWidth?) fields fields')
    (position : Nat) (pending : List Nat) (width : Nat) :
    planFrom position pending width fields = planFrom position pending width fields' := by
  induction widths generalizing position pending width with
  | nil => rfl
  | cons first _ ih => simp only [planFrom, first, ih]

/-! ## Built structs -/

/-- How a struct was built: its version is the hash of its fingerprint, its fields are in canonical
order, and their types are those of their shapes. -/
structure StructType.Fingerprinted (s : StructType) : Prop where
  version : s.version = fingerprintHash (fingerprint s.fields)
  canonical : canonicalOrder s.fields = s.fields
  apart : KeyedApart s.fields
  types : ∃ lookup : NamedLookup, lookup.Registered ∧
    ∀ f ∈ s.fields, f.type = f.shape.typeId lookup

/-- A struct that was built has its resolved fields in canonical order, and their hash. -/
theorem Registry.fields_of_build {r : Registry} {config : Config} {name : String}
    {entry : StructEntry} {s : StructType} (h : r.build config name entry = .ok s) :
    ∃ chain, r.chain name entry.decl = .ok chain ∧ s.fields = canonicalOrder
        (resolveFields (r.lookup config.compatible) config.trackRef chain) ∧
      s.version = fingerprintHash
        (fingerprint (resolveFields (r.lookup config.compatible) config.trackRef chain)) := by
  obtain ⟨chain, found, h⟩ := bind_eq_ok_iff.1 h
  obtain ⟨_, -, h⟩ := bind_eq_ok_iff.1 h
  obtain ⟨_, -, h⟩ := bind_eq_ok_iff.1 h
  exact ⟨chain, found, StructType.fields_of_build h⟩

theorem Registry.builds_fingerprinted (config : Config) :
    BuildsOnly config fun _ _ s => s.Fingerprinted := by
  intro r name entry s h
  have keys := distinctKeys_of_nodup (builds_built config r name entry s h).names
    (described_of_build h).tags
  have apart := keyedApart_of_distinct keys
  obtain ⟨chain, -, fields, version⟩ := fields_of_build h
  let resolved := resolveFields (r.lookup config.compatible) config.trackRef chain
  have order : s.fields.Perm resolved := fields ▸ canonicalOrder_perm resolved
  refine ⟨?_, ?_, apart, r.lookup config.compatible, r.registered_lookup _, fun f hf => ?_⟩
  · rw [version, fingerprint_of_perm apart order]
  · rw [canonicalOrder_of_perm apart order, fields]
  · obtain ⟨i, lt, rfl⟩ := List.mem_mapIdx.1 (order.mem_iff.1 hf)
    rfl

/-- The structs of a reachable instance carry the hash of their fingerprint. -/
theorem Instance.Reachable.fingerprinted {i : Instance} (reachable : i.Reachable)
    (sane : i.fault = none) {name : String} {s : StructType}
    (found : i.registry.struct? name = some s) : s.Fingerprinted := by
  have everywhere := reachable.everywhere
    (P := fun _ _ _ _ s => s.Fingerprinted) Registry.builds_fingerprinted
  obtain ⟨entry, he, hs⟩ := Registry.struct?_eq_some_iff.1 found
  obtain ⟨before, after, same, -⟩ := List.lookup_eq_some_iff.1 he
  exact everywhere sane (name, entry) (by rw [same]; simp) s hs

namespace Instance

variable {i j : Instance} {name name' : String} {s t : StructType}

theorem Reachable.distinguishable (reachable : i.Reachable) (sane : i.fault = none)
    (found : i.registry.struct? name = some s) (plain : ∀ f ∈ s.fields, f.Plain) :
    Distinguishable s.fields := by
  obtain ⟨⟨_, -, described⟩, -, -⟩ := reachable.described sane found
  exact ⟨fun f hf => ⟨plain f hf, (described f hf).tag⟩, (reachable.fingerprinted sane found).apart,
    ((reachable.sound.built sane).built found).names.of_map⟩

theorem Reachable.outline (reachable : i.Reachable) (sane : i.fault = none)
    (found : i.registry.struct? name = some s) {f : Field} (member : f ∈ s.fields) :
    f.shape.outline = f.type.forFingerprint.outline := by
  obtain ⟨⟨_, -, described⟩, -, -⟩ := reachable.described sane found
  obtain ⟨lookup, registered, types⟩ := (reachable.fingerprinted sane found).types
  rw [types f member]
  exact Shape.outline_of_type registered (described f member).declarable

/-- Structs with one fingerprint have one version, and as many fields that are laid out alike at the
same canonical positions; if these agree in which fields carry their type, the structs have one
plan. -/
theorem Reachable.laidOutAlike (reachable : i.Reachable) (reachable' : j.Reachable)
    (sane : i.fault = none) (sane' : j.fault = none) (trackRef : i.config.trackRef = j.config.trackRef)
    (found : i.registry.struct? name = some s) (found' : j.registry.struct? name' = some t)
    (plain : ∀ f ∈ s.fields, f.Plain) (plain' : ∀ f ∈ t.fields, f.Plain)
    (same : fingerprint s.fields = fingerprint t.fields) :
    s.version = t.version ∧ List.Forall₂ Field.LaidOutAlike s.fields t.fields ∧
      (List.Forall₂ (fun f g => f.dynamic = g.dynamic) s.fields t.fields → s.plan = t.plan) := by
  have fs := reachable.fingerprinted sane found
  have ft := reachable'.fingerprinted sane' found'
  have built := (reachable.sound.built sane).built found
  have built' := (reachable'.sound.built sane').built found'
  have entries := sameEntries_canonical (reachable.distinguishable sane found plain)
    (reachable'.distinguishable sane' found' plain') same
  rw [fs.canonical, ft.canonical] at entries
  have alike : List.Forall₂ Field.LaidOutAlike s.fields t.fields := by
    obtain ⟨length, entries⟩ := List.forall₂_iff_zip.1 entries
    refine List.forall₂_iff_zip.2 ⟨length, fun {f g} member => ?_⟩
    obtain ⟨hf, hg⟩ := List.of_mem_zip member
    obtain ⟨key, type, refEligible, nullable⟩ := entries member
    refine ⟨key, nullable, refEligible, ?_, ?_⟩
    · rw [Field.refMode, Field.refMode, (built.resolved f hf).tracked,
        (built'.resolved g hg).tracked, refEligible, nullable, trackRef]
    · rw [reachable.outline sane found hf, reachable'.outline sane' found' hg, type]
  refine ⟨by rw [fs.version, ft.version, same], alike, fun dynamic => ?_⟩
  rw [built.plan, built'.plan]
  refine planFrom_congr ?_ 0 [] 0
  obtain ⟨length, alike⟩ := List.forall₂_iff_zip.1 alike
  obtain ⟨-, dynamic⟩ := List.forall₂_iff_zip.1 dynamic
  exact List.forall₂_iff_zip.2 ⟨length, fun member => (alike member).fixedWidth?_eq (dynamic member)⟩

/-- A struct with the given fields. -/
def declaredT (fields : List FieldDecl) : StructDecl :=
  { naming := .ofNames "demo" "T", parent := none, isAbstract := false, fields }

/-- A fresh instance, in strict mode, that knows the struct. -/
def knowing (fields : List FieldDecl) : Instance :=
  (fresh.registerStruct (some 1) (declaredT fields)).2

theorem reachable_knowing (fields : List FieldDecl) : (knowing fields).Reachable :=
  ⟨[.registerStruct (some 1) (declaredT fields)], rfl⟩

/-- A list of numbers. -/
def numbers : List FieldDecl := [.ofShape "xs" (.list (.scalar .int8))]

/-- A list of truth values. -/
def flags : List FieldDecl := [.ofShape "xs" (.list (.scalar .bool))]

/-- Structs with lists of different elements have one fingerprint, and are laid out alike outside the
lists. -/
theorem laidOutAlike_lists :
    ∃ s t, (knowing numbers).registry.struct? "demo.T" = some s ∧
      (knowing flags).registry.struct? "demo.T" = some t ∧
      (∀ f ∈ s.fields, f.Plain) ∧ (∀ f ∈ t.fields, f.Plain) ∧
      fingerprint s.fields = fingerprint t.fields ∧ s.version = t.version ∧
      List.Forall₂ Field.LaidOutAlike s.fields t.fields ∧
      (List.Forall₂ (fun f g => f.dynamic = g.dynamic) s.fields t.fields → s.plan = t.plan) := by
  let s := ((knowing numbers).registry.struct? "demo.T").get (by decide +kernel)
  let t := ((knowing flags).registry.struct? "demo.T").get (by decide +kernel)
  have found : (knowing numbers).registry.struct? "demo.T" = some s := (Option.some_get _).symm
  have found' : (knowing flags).registry.struct? "demo.T" = some t := (Option.some_get _).symm
  have plain : ∀ f ∈ s.fields, f.Plain := by decide +kernel
  have plain' : ∀ f ∈ t.fields, f.Plain := by decide +kernel
  have same : fingerprint s.fields = fingerprint t.fields := by decide +kernel
  have sane : (knowing numbers).fault = none ∧ (knowing flags).fault = none := by decide +kernel
  have trackRef : (knowing numbers).config.trackRef = (knowing flags).config.trackRef := by
    decide +kernel
  exact ⟨s, t, found, found', plain, plain', same,
    (reachable_knowing numbers).laidOutAlike (reachable_knowing flags) sane.1 sane.2 trackRef found
      found' plain plain' same⟩

/-! ## What fingerprints do not tell -/

/-- How the value of a field is laid out: whether nulls and references are marked, whether its type
goes before it, and its shape. -/
structure FieldLayout where
  nullable : Bool
  refEligible : Bool
  typed : Bool
  shape : Shape
  deriving DecidableEq, Repr

/-- The fingerprint of the struct that an instance knows, and how its fields are laid out. -/
def laidOut (fields : List FieldDecl) : Option (String × List FieldLayout) :=
  ((knowing fields).registry.struct? "demo.T").map fun s =>
    (fingerprint s.fields, s.fields.map fun f =>
      ⟨f.nullable, f.refEligible, f.hasTypeInfo s.isCompatible, f.shape⟩)

/-- The registry of a fresh instance that the struct has joined. -/
def joinedT (fields : List FieldDecl) : Registry :=
  { Registry.empty with ids := ⟨[(1, "demo.T")]⟩ }.addStruct (some 1) (declaredT fields)

/-- The struct is known if it can be built. -/
theorem struct?_knowing {fields : List FieldDecl} {s : StructType}
    (built : (joinedT fields).build .standard "demo.T" ⟨declaredT fields, some 1, none⟩ = .ok s) :
    (knowing fields).registry.struct? "demo.T" = some s := by
  have declared : (joinedT fields).declarations = [("demo.T", declaredT fields, some 1)] := rfl
  obtain ⟨r', rebuilt⟩ := Registry.exists_rebuild_iff.2 fun d member => by
    rw [declared, List.mem_singleton] at member
    rw [member]
    exact ⟨s, built⟩
  have joins : Registry.empty.registerStruct .standard (some 1) (declaredT fields) =
      (joinedT fields).settle .standard "demo.T" (some 1) := rfl
  have registry : (knowing fields).registry = r' := by
    unfold knowing registerStruct
    rw [(settle_registry _ _).1]
    show (Registry.empty.registerStruct .standard (some 1) (declaredT fields)).2 = r'
    rw [joins, Registry.settle, rebuilt]
  have found : (joinedT fields).declared? "demo.T" = some (declaredT fields, some 1) := rfl
  rw [registry, Registry.struct?_rebuild rebuilt, found]
  simp only [Option.bind_some, built]
  rfl

/-- Two numbers. -/
def twoNumbers : List FieldDecl :=
  [.ofShape "a" (.scalar .varint32), .ofShape "b" (.scalar .varint32)]

theorem laidOut_twoNumbers :
    laidOut twoNumbers = some ("a,5,0,0;b,5,0,0;",
      [⟨false, false, false, .scalar .varint32⟩, ⟨false, false, false, .scalar .varint32⟩]) := by
  let resolved := resolveFields ((joinedT twoNumbers).lookup false) false [declaredT twoNumbers]
  have text : fingerprint resolved = "a,5,0,0;b,5,0,0;" := by
    rw [fingerprint, List.mergeSort_of_pairwise (by decide +kernel)]
    decide +kernel
  have order : canonicalOrder resolved = resolved :=
    canonicalOrder_of_group .primitive (by decide +kernel) (by decide +kernel)
  have hashed : structVersion "demo.T" resolved =
      .ok (fingerprintHash "a,5,0,0;b,5,0,0;") := by
    rw [structVersion, text]
    exact if_neg (by decide +kernel)
  have built : ∃ s, (joinedT twoNumbers).build .standard "demo.T"
      ⟨declaredT twoNumbers, some 1, none⟩ = .ok s ∧ s.fields = resolved ∧
        s.isCompatible = false := by
    refine ⟨_, bind_eq_ok_iff.2 ⟨[declaredT twoNumbers], rfl, bind_eq_ok_iff.2 ⟨(), rfl,
      bind_eq_ok_iff.2 ⟨(), rfl, bind_eq_ok_iff.2 ⟨_, hashed, rfl⟩⟩⟩⟩, order, rfl⟩
  obtain ⟨s, built, fields, strict⟩ := built
  unfold laidOut
  rw [struct?_knowing built, Option.map_some, fields, strict, text]
  rfl

/-- Equal fingerprints leave open what a container holds, whether a field carries its type, whether it
refers to a type by name, and, where a name holds the character that ends an entry, how many fields
there are. -/
theorem fingerprint_leaves_open :
    (laidOut numbers = some ("xs,22,0,0;", [⟨false, false, false, .list (.scalar .int8)⟩]) ∧
      laidOut flags =
        some ("xs,22,0,0;", [⟨false, false, false, .list (.scalar .bool)⟩])) ∧
    (laidOut [.ofShape "x" (.scalar .int8)] =
        some ("x,2,0,0;", [⟨false, false, false, .scalar .int8⟩]) ∧
      laidOut [{ FieldDecl.ofShape "x" (.scalar .int8) with dynamic := some true }] =
        some ("x,2,0,0;", [⟨false, false, true, .scalar .int8⟩])) ∧
    (laidOut [.ofShape "x" (.named "demo.E")] =
        some ("x,0,0,0;", [⟨false, false, true, .named "demo.E"⟩]) ∧
      laidOut [.ofShape "x" .dynamic] =
        some ("x,0,0,0;", [⟨false, false, true, .dynamic⟩])) ∧
    (laidOut [.ofShape "a,5,0,0;b" (.scalar .varint32)] =
        some ("a,5,0,0;b,5,0,0;", [⟨false, false, false, .scalar .varint32⟩]) ∧
      laidOut twoNumbers = some ("a,5,0,0;b,5,0,0;",
        [⟨false, false, false, .scalar .varint32⟩, ⟨false, false, false, .scalar .varint32⟩])) := by
  refine ⟨⟨?_, ?_⟩, ⟨?_, ?_⟩, ⟨?_, ?_⟩, ?_, laidOut_twoNumbers⟩
  all_goals decide +kernel

end Instance

end Graphwire
