import Graphwire.Definition.Reconciliation
import Graphwire.Proofs.Definitions

/-!
# Fields that are matched

No two fields of a struct have one key, which is the tag or else the name. So the entries of a peer's
definition are matched each on its own, with the field of the same key if the types agree. Every field
of ours then either has one counterpart among the peer's fields or is missing.
-/

namespace Graphwire

set_option autoImplicit false

/-! ## Keys -/

namespace Field

/-- Whether two fields are known by the same tag, or both by the same name. -/
def SameKey (f own : Field) : Prop := f.tag = own.tag ∧ (f.tag = none → f.name = own.name)

/-- Whether a field of a peer and a field of ours have the same key, and the same type codes and
generics. -/
structure Corresponds (f own : Field) : Prop where
  key : f.SameKey own
  type : own.fieldType.agrees f.fieldType = true

theorem SameKey.symm {f own : Field} (h : f.SameKey own) : own.SameKey f :=
  ⟨h.1.symm, fun untagged => (h.2 (h.1.trans untagged)).symm⟩

theorem SameKey.trans {f g own : Field} (h : f.SameKey g) (h' : g.SameKey own) : f.SameKey own :=
  ⟨h.1.trans h'.1, fun untagged => (h.2 untagged).trans (h'.2 (h.1.symm.trans untagged))⟩

end Field

/-- Whether no two fields have one key. -/
def DistinctKeys (fields : List Field) : Prop := fields.Pairwise fun a b => ¬a.SameKey b

theorem distinctKeys_of_nodup {fields : List Field} (names : (fields.map (·.name)).Nodup)
    (tags : (fields.filterMap (·.tag)).Nodup) : DistinctKeys fields := by
  have names := List.pairwise_map.1 names
  have tags := List.pairwise_filterMap.1 tags
  refine (names.and tags).imp ?_
  rintro a b ⟨name, tag⟩ ⟨sameTag, sameName⟩
  cases known : a.tag with
  | none => exact name (sameName known)
  | some t => exact tag t known t (sameTag ▸ known) rfl

/-- Fields with one key stand in one position. -/
theorem DistinctKeys.position_eq {fields : List Field} (keys : DistinctKeys fields) {i j : Nat}
    {a b : Field} (ha : fields[i]? = some a) (hb : fields[j]? = some b) (same : a.SameKey b) :
    i = j := by
  obtain ⟨hi, rfl⟩ := List.getElem?_eq_some_iff.1 ha
  obtain ⟨hj, rfl⟩ := List.getElem?_eq_some_iff.1 hb
  have apart := List.pairwise_iff_getElem.1 keys
  rcases Nat.lt_trichotomy i j with before | here | after
  · exact absurd same (apart i j hi hj before)
  · exact here
  · exact absurd same.symm (apart j i hj hi after)

/-! ## Matching -/

theorem length_matchEntries (fields : List Field) (entries : List FieldEntry) (taken : List Nat) :
    (matchEntries fields entries taken).length = entries.length := by
  induction entries generalizing taken with
  | nil => rfl
  | cons e rest ih => exact congrArg (· + 1) (ih _)

theorem FieldType.agrees_withTracked (a b : FieldType) (tracked : Bool) :
    a.agrees (b.withTracked tracked) = a.agrees b := by
  obtain ⟨t, n, r, g⟩ := a
  obtain ⟨u, m, q, h⟩ := b
  rfl

namespace FieldEntry

theorem standsFor_ofField {f own : Field} : (ofField f).standsFor own = true ↔ f.SameKey own := by
  unfold standsFor ofField Field.SameKey
  cases known : f.tag with
  | none =>
    simp only [Option.isSome_none, Bool.false_eq_true, if_false, Bool.and_eq_true,
      decide_eq_true_eq, forall_const]
    exact and_congr eq_comm eq_comm
  | some tag =>
    simp only [decide_eq_true_eq, reduceCtorEq, false_imp_iff, and_true]
    exact eq_comm

variable {fields : List Field} {f : Field} {taken : List Nat}

/-- Where no position of a field with its key is taken, an entry is matched with its counterpart. -/
theorem match?_eq_some_iff (keys : DistinctKeys fields)
    (free : ∀ i ∈ taken, ∀ own, fields[i]? = some own → ¬f.SameKey own) {i : Nat} :
    (ofField f).match? fields taken = some i ↔
      ∃ own, fields[i]? = some own ∧ f.Corresponds own := by
  have agree (own : Field) : own.fieldType.agrees (ofField f).type = own.fieldType.agrees f.fieldType :=
    FieldType.agrees_withTracked ..
  unfold match?
  cases found : fields.zipIdx.find? fun p => !taken.contains p.2 && (ofField f).standsFor p.1 with
  | none =>
    refine ⟨fun absent => (by cases absent), ?_⟩
    rintro ⟨own, at', corresponds⟩
    have refused := List.find?_eq_none.1 found (own, i) (List.mem_zipIdx_iff_getElem?.2 at')
    have open' : i ∉ taken := fun member => free i member own at' corresponds.key
    simp [open', standsFor_ofField.2 corresponds.key] at refused
  | some hit =>
    obtain ⟨g, j⟩ := hit
    have here := List.mem_zipIdx_iff_getElem?.1 (List.mem_of_find?_eq_some found)
    have key : f.SameKey g := by
      have holds := List.find?_some found
      exact standsFor_ofField.1 (by simpa using holds : _ ∧ _).2
    have only : ∀ own, fields[i]? = some own → f.SameKey own → i = j ∧ own = g := by
      intro own at' same
      cases keys.position_eq at' here (same.symm.trans key)
      exact ⟨rfl, Option.some.inj (at'.symm.trans here)⟩
    dsimp only
    rw [agree]
    split
    · rename_i agrees
      constructor
      · intro same
        cases same
        exact ⟨g, here, key, agrees⟩
      · rintro ⟨own, at', corresponds⟩
        exact congrArg some (only own at' corresponds.key).1.symm
    · rename_i differ
      refine ⟨fun absent => (by cases absent), ?_⟩
      rintro ⟨own, at', corresponds⟩
      rw [(only own at' corresponds.key).2] at corresponds
      exact absurd corresponds.type differ

end FieldEntry

namespace StructType

/-- The position of our field that a field of a peer is matched with. -/
def position? (s : StructType) (f : Field) : Option Nat := (FieldEntry.ofField f).match? s.fields []

variable {s : StructType} {f : Field} {own : Field}

theorem position?_eq_some_iff (keys : DistinctKeys s.fields) {i : Nat} :
    s.position? f = some i ↔ ∃ own, s.fields[i]? = some own ∧ f.Corresponds own :=
  FieldEntry.match?_eq_some_iff keys fun _ member => absurd member List.not_mem_nil

/-- Entries of distinct keys do not take each other's counterparts. -/
theorem matchEntries_eq (keys : DistinctKeys s.fields) {fs : List Field} (theirs : DistinctKeys fs)
    {taken : List Nat}
    (free : ∀ f ∈ fs, ∀ i ∈ taken, ∀ own, s.fields[i]? = some own → ¬f.SameKey own) :
    matchEntries s.fields (fs.map FieldEntry.ofField) taken = fs.map s.position? := by
  induction fs generalizing taken with
  | nil => rfl
  | cons f fs ih =>
    obtain ⟨apart, theirs⟩ := List.pairwise_cons.1 theirs
    obtain ⟨freeHere, freeThere⟩ := List.forall_mem_cons.1 free
    have here : (FieldEntry.ofField f).match? s.fields taken = s.position? f := by
      refine Option.ext fun i => ?_
      rw [FieldEntry.match?_eq_some_iff keys freeHere, position?_eq_some_iff keys]
    rw [List.map_cons, List.map_cons, matchEntries, here]
    refine congrArg (_ :: ·) (ih theirs fun f' member i taken own at' same => ?_)
    rcases List.mem_append.1 taken with now | before
    · obtain ⟨own', at'', corresponds⟩ := (position?_eq_some_iff keys).1 (Option.mem_toList.1 now)
      cases at'.symm.trans at''
      exact apart f' member (corresponds.key.trans same.symm)
    · exact freeThere f' member i before own at' same

/-! ## Counterparts -/

/-- Our field that a field of a peer is matched with. -/
def counterpart? (s : StructType) (f : Field) : Option Field :=
  (s.position? f).bind (s.fields[·]?)

theorem counterpart?_eq_some_iff (keys : DistinctKeys s.fields) :
    s.counterpart? f = some own ↔ own ∈ s.fields ∧ f.Corresponds own := by
  unfold counterpart?
  rw [Option.bind_eq_some_iff]
  constructor
  · rintro ⟨i, found, at'⟩
    obtain ⟨own', at'', corresponds⟩ := (position?_eq_some_iff keys).1 found
    cases at'.symm.trans at''
    exact ⟨List.mem_of_getElem? at', corresponds⟩
  · rintro ⟨member, corresponds⟩
    obtain ⟨i, at'⟩ := List.mem_iff_getElem?.1 member
    exact ⟨i, (position?_eq_some_iff keys).2 ⟨own, at', corresponds⟩, at'⟩

/-- The positions of our fields that no field of a peer is matched with. -/
def missing (s : StructType) (fs : List Field) : List Nat :=
  (List.range s.fields.length).filter fun i => !(fs.map s.position?).contains (some i)

theorem mem_missing {fs : List Field} {i : Nat} :
    i ∈ s.missing fs ↔ i < s.fields.length ∧ ∀ f ∈ fs, s.position? f ≠ some i := by
  simp [missing]

/-- Our fields with the fields of a peer that supply them: first those that have a counterpart, then
those without one. -/
def supplies (s : StructType) (fs : List Field) : List (Field × Option Field) :=
  (fs.filterMap fun f => (s.counterpart? f).map (·, some f)) ++
    ((s.missing fs).filterMap (s.fields[·]?)).map (·, none)

theorem nodup_pick {α β : Type} {l : List α} {name : α → β} {positions : List Nat}
    (distinct : positions.Nodup) (names : (l.map name).Nodup) :
    ((positions.filterMap (l[·]?)).map name).Nodup := by
  refine List.pairwise_map.2 (List.pairwise_filterMap.2 (distinct.imp fun {i j} ne a ha b hb same => ne ?_))
  have short : i < (l.map name).length := by
    rw [List.length_map]
    exact (List.getElem?_eq_some_iff.1 ha).1
  exact (List.getElem?_inj short names).1 (by rw [List.getElem?_map, List.getElem?_map, ha, hb,
    Option.map_some, Option.map_some, same])

variable {fs : List Field} (keys : DistinctKeys s.fields)

include keys

/-- No field of ours is supplied twice. -/
theorem nodup_supplies (names : (s.fields.map (·.name)).Nodup) (theirs : DistinctKeys fs) :
    ((s.supplies fs).map (·.1.name)).Nodup := by
  have matched : (fs.filterMap s.position?).Nodup := by
    refine List.pairwise_filterMap.2 (theirs.imp ?_)
    rintro f f' apart i hi _ hj rfl
    obtain ⟨own, at', corresponds⟩ := (position?_eq_some_iff keys).1 hi
    obtain ⟨own', at'', corresponds'⟩ := (position?_eq_some_iff keys).1 hj
    cases at'.symm.trans at''
    exact apart (corresponds.key.trans corresponds'.key.symm)
  have positions : (fs.filterMap s.position? ++ s.missing fs).Nodup := by
    refine List.nodup_append.2 ⟨matched, List.nodup_range.filter _, ?_⟩
    rintro i hi _ hj rfl
    obtain ⟨f, member, found⟩ := List.mem_filterMap.1 hi
    exact (mem_missing.1 hj).2 f member found
  have picked : (s.supplies fs).map (·.1.name) =
      ((fs.filterMap s.position? ++ s.missing fs).filterMap (s.fields[·]?)).map (·.name) := by
    simp only [supplies, List.map_append, List.filterMap_append, List.map_filterMap,
      List.filterMap_filterMap, counterpart?, Option.map_map]
    rfl
  rw [picked]
  exact nodup_pick positions names

/-- A field of ours is supplied by its counterpart, or by nothing if it has none. -/
theorem mem_supplies (member : own ∈ s.fields) :
    (∀ f ∈ fs, f.Corresponds own → (own, some f) ∈ s.supplies fs) ∧
      ((∀ f ∈ fs, ¬f.Corresponds own) → (own, none) ∈ s.supplies fs) := by
  constructor
  · intro f declared corresponds
    refine List.mem_append.2 (.inl (List.mem_filterMap.2 ⟨f, declared, ?_⟩))
    rw [(counterpart?_eq_some_iff keys).2 ⟨member, corresponds⟩]
    rfl
  · intro none
    obtain ⟨i, at'⟩ := List.mem_iff_getElem?.1 member
    refine List.mem_append.2 (.inr (List.mem_map.2 ⟨own, List.mem_filterMap.2 ⟨i, ?_, at'⟩, rfl⟩))
    refine mem_missing.2 ⟨(List.getElem?_eq_some_iff.1 at').1, fun f declared found => ?_⟩
    obtain ⟨own', at'', corresponds⟩ := (position?_eq_some_iff keys).1 found
    cases at'.symm.trans at''
    exact none f declared corresponds

/-- Only fields of ours are supplied. -/
theorem mem_of_mem_supplies {slot : Field × Option Field} (h : slot ∈ s.supplies fs) :
    slot.1 ∈ s.fields := by
  rcases List.mem_append.1 h with kept | left
  · obtain ⟨f, -, found⟩ := List.mem_filterMap.1 kept
    obtain ⟨own, known, rfl⟩ := Option.map_eq_some_iff.1 found
    exact ((counterpart?_eq_some_iff keys).1 known).1
  · obtain ⟨own, picked, rfl⟩ := List.mem_map.1 left
    obtain ⟨i, -, at'⟩ := List.mem_filterMap.1 picked
    exact List.mem_of_getElem? at'

end StructType

/-! ## Peers -/

/-- What a reader makes of a struct that it is told of. -/
def Registry.peerOf (r : Registry) (w : StructType) (header : Int) : PeerStruct :=
  .ofDefinition r header (w.told header)

/-- How a reader reads a field that it is told of. -/
def StructType.peerField (s : StructType) (f : Field) : PeerField :=
  .ofEntry (some s) (.ofField f) (s.position? f)

namespace Registry

variable {r : Registry} {w s : StructType} {header : Int}

theorem own_peerOf (found : r.structOf? (w.told header).identity = some s) :
    (r.peerOf w header).own = some s := found

theorem typeName_peerOf (found : r.structOf? (w.told header).identity = some s) :
    (r.peerOf w header).typeName = s.qualifiedName := by
  simp only [peerOf, PeerStruct.ofDefinition, found]
  rfl

theorem sameLayout_peerOf (found : r.structOf? (w.told header).identity = some s) :
    (r.peerOf w header).sameLayout = decide (s.header? = some header) := by
  simp only [peerOf, PeerStruct.ofDefinition, found]
  rfl

/-- The fields of a peer are read each on its own, and ours without counterpart are missing. -/
theorem fields_peerOf (found : r.structOf? (w.told header).identity = some s)
    (keys : DistinctKeys s.fields) (theirs : DistinctKeys w.fields) :
    (r.peerOf w header).fields = w.fields.map s.peerField ∧
      (r.peerOf w header).missing = s.missing w.fields := by
  have matched : matchEntries s.fields (w.fields.map FieldEntry.ofField) [] =
      w.fields.map s.position? :=
    StructType.matchEntries_eq keys theirs fun _ _ _ member => absurd member List.not_mem_nil
  have told : (w.told header).fields = w.fields.map FieldEntry.ofField := rfl
  simp only [peerOf, PeerStruct.ofDefinition, found, TypeDefinition.reconcile, told, matched]
  refine ⟨?_, rfl⟩
  rw [List.zipWith_map_left, List.zipWith_map_right, List.zipWith_self]
  rfl

end Registry

end Graphwire
