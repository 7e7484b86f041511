import Graphwire.Proofs.Matching
import Mathlib.Data.List.FinRange

/-!
# Entries that take fields

A definition may hold any entries: several of one key, or of a key of ours with another type. An entry
describes a field if both are known by the same tag, or untagged by the same name, and their types are
equal apart from flags. Where no two fields are known alike, the first entry that describes a field takes
it, whatever other entries of its key come before or after. That entries are matched with fields one to
one, that only fields which nothing describes are missing, and that the order of distinct entries does
not matter, all follow from this.
-/

namespace Graphwire

set_option autoImplicit false

/-! ## Types without flags -/

namespace FieldType

mutual

/-- The type code and the generics of a field type, without flags. -/
def bare : FieldType → FieldType
  | mk t _ _ generics => mk t false false (bareAll generics)

/-- Field types without flags. -/
def bareAll : List FieldType → List FieldType
  | [] => []
  | f :: rest => f.bare :: bareAll rest

end

mutual

theorem agrees_iff : (a b : FieldType) → (a.agrees b = true ↔ a.bare = b.bare)
  | mk t n r g, mk u m q h => by
    rw [agrees, Bool.and_eq_true, decide_eq_true_iff, allAgree_iff g h, bare, bare, mk.injEq]
    exact ⟨fun ⟨type, generics⟩ => ⟨type, rfl, rfl, generics⟩,
      fun ⟨type, _, _, generics⟩ => ⟨type, generics⟩⟩

theorem allAgree_iff : (as bs : List FieldType) → (allAgree as bs = true ↔ bareAll as = bareAll bs)
  | [], [] => by simp [allAgree]
  | [], _ :: _ => by simp [allAgree, bareAll]
  | _ :: _, [] => by simp [allAgree, bareAll]
  | a :: as, b :: bs => by
    rw [allAgree, Bool.and_eq_true, agrees_iff a b, allAgree_iff as bs, bareAll, bareAll,
      List.cons.injEq]

end

theorem bare_withTracked (f : FieldType) (tracked : Bool) : (f.withTracked tracked).bare = f.bare := by
  obtain ⟨t, n, r, g⟩ := f
  rfl

end FieldType

/-! ## Entries and fields -/

/-- What a field is known by: its tag, or its name if it has none. -/
inductive FieldKey where
  | tag (number : Int)
  | name (text : String)
  deriving DecidableEq, Repr

def Field.knownBy (f : Field) : FieldKey := f.tag.elim (.name f.name) .tag

def FieldEntry.knownBy (e : FieldEntry) : FieldKey := e.tag.elim (.name e.name) .tag

/-- Whether an entry describes a field: they are known alike and have the same type but for flags. -/
structure FieldEntry.Describes (e : FieldEntry) (f : Field) : Prop where
  key : e.knownBy = f.knownBy
  type : e.type.bare = f.fieldType.bare

theorem nodup_knownBy {fields : List Field} (names : (fields.map (·.name)).Nodup)
    (tags : (fields.filterMap (·.tag)).Nodup) : (fields.map Field.knownBy).Nodup := by
  refine List.pairwise_map.2 ((distinctKeys_of_nodup names tags).imp fun {a b} apart same => apart ?_)
  unfold Field.knownBy at same
  cases ha : a.tag <;> cases hb : b.tag <;> simp only [ha, hb, Option.elim, reduceCtorEq,
    FieldKey.name.injEq, FieldKey.tag.injEq] at same
  · exact ⟨ha.trans hb.symm, fun _ => same⟩
  · exact ⟨by rw [ha, hb, same], fun absent => absurd (ha.symm.trans absent) nofun⟩

/-- Things of one key stand in one position, where all keys differ. -/
theorem position_eq_of_nodup {α β : Type} {key : α → β} {l : List α} (keys : (l.map key).Nodup)
    {i j : Nat} {a b : α} (ha : l[i]? = some a) (hb : l[j]? = some b) (same : key a = key b) :
    i = j := by
  have short : i < (l.map key).length := by
    rw [List.length_map]
    exact (List.getElem?_eq_some_iff.1 ha).1
  refine (List.getElem?_inj short keys).1 ?_
  rw [List.getElem?_map, List.getElem?_map, ha, hb, Option.map_some, Option.map_some, same]

namespace FieldEntry

variable {fields : List Field} {e : FieldEntry} {f : Field} {taken : List Nat} {i : Nat}

theorem standsFor_iff : e.standsFor f = true ↔ e.knownBy = f.knownBy := by
  unfold standsFor knownBy Field.knownBy
  cases e.tag <;> cases f.tag <;> simp [eq_comm]

/-- An entry is matched with the field that it describes, unless that one is taken. -/
theorem match?_eq_some_iff_describes (keys : (fields.map Field.knownBy).Nodup) :
    e.match? fields taken = some i ↔
      i ∉ taken ∧ ∃ f, fields[i]? = some f ∧ e.Describes f := by
  unfold match?
  cases found : fields.zipIdx.find? fun p => !taken.contains p.2 && e.standsFor p.1 with
  | none =>
    refine ⟨fun absent => (by cases absent), ?_⟩
    rintro ⟨free, f, here, describes⟩
    have refused := List.find?_eq_none.1 found (f, i) (List.mem_zipIdx_iff_getElem?.2 here)
    simp [free, standsFor_iff.2 describes.key] at refused
  | some hit =>
    obtain ⟨f, j⟩ := hit
    have here : fields[j]? = some f :=
      List.mem_zipIdx_iff_getElem?.1 (List.mem_of_find?_eq_some found)
    have holds : j ∉ taken ∧ e.standsFor f = true := by simpa using List.find?_some found
    obtain ⟨free, stands⟩ := holds
    have key := standsFor_iff.1 stands
    have type : f.fieldType.agrees e.type = true ↔ e.type.bare = f.fieldType.bare :=
      (FieldType.agrees_iff _ _).trans eq_comm
    dsimp only
    constructor
    · intro matched
      split at matched <;> cases matched
      exact ⟨free, f, here, key, type.1 ‹_›⟩
    · rintro ⟨-, f', here', describes⟩
      obtain rfl := position_eq_of_nodup keys here here' (key.symm.trans describes.key)
      obtain rfl := Option.some.inj (here.symm.trans here')
      rw [if_pos (type.2 describes.type)]

end FieldEntry

/-! ## Matching -/

/-- Where some member of a list has a property, there is a first one. -/
theorem exists_first {α : Type} {P : α → Prop} {l : List α} (some' : ∃ a ∈ l, P a) :
    ∃ k a, l[k]? = some a ∧ P a ∧ ∀ b ∈ l.take k, ¬P b := by
  induction l with
  | nil => simp at some'
  | cons a rest ih =>
    by_cases here : P a
    · exact ⟨0, a, rfl, here, by simp⟩
    · obtain ⟨b, member, later⟩ := some'
      obtain rfl | member := List.mem_cons.1 member
      · exact absurd later here
      · obtain ⟨k, c, there, holds, before⟩ := ih ⟨b, member, later⟩
        exact ⟨k + 1, c, there, holds, List.forall_mem_cons.2 ⟨here, before⟩⟩

section

variable {fields : List Field} (keys : (fields.map Field.knownBy).Nodup)

include keys

/-- Among entries that are matched one after the other, the first one that describes a field takes it,
unless it was taken before. -/
theorem matchEntries_eq_some_iff (entries : List FieldEntry) (taken : List Nat) (k i : Nat) :
    (matchEntries fields entries taken)[k]? = some (some i) ↔ i ∉ taken ∧
      ∃ e f, entries[k]? = some e ∧ fields[i]? = some f ∧ e.Describes f ∧
        ∀ e' ∈ entries.take k, ¬e'.Describes f := by
  induction entries generalizing taken k with
  | nil => simp [matchEntries]
  | cons e rest ih =>
    have here : e.match? fields taken = some i ↔
        i ∉ taken ∧ ∃ f, fields[i]? = some f ∧ e.Describes f :=
      FieldEntry.match?_eq_some_iff_describes keys
    rw [matchEntries]
    cases k with
    | zero => simp [here]
    | succ k =>
      rw [List.getElem?_cons_succ, ih]
      simp only [List.mem_append, Option.mem_toList, not_or, List.getElem?_cons_succ,
        List.take_succ_cons, List.forall_mem_cons]
      constructor
      · rintro ⟨⟨other, free⟩, e', f, there, field, describes, before⟩
        refine ⟨free, e', f, there, field, describes, fun first => other ?_, before⟩
        exact here.2 ⟨free, f, field, first⟩
      · rintro ⟨free, e', f, there, field, describes, first, before⟩
        refine ⟨⟨fun now => ?_, free⟩, e', f, there, field, describes, before⟩
        obtain ⟨-, f', field', describes'⟩ := here.1 now
        obtain rfl := Option.some.inj (field.symm.trans field')
        exact first describes'

end

/-- Whether entries are matched with fields one to one, each with a field that it describes, and just
the fields that no entry describes are missing, in ascending order. -/
structure Reconciliation.PartialMatching (r : Reconciliation) (entries : List FieldEntry)
    (fields : List Field) : Prop where
  length : r.matched.length = entries.length
  distinct : (r.matched.filterMap id).Nodup
  described : ∀ k i : Nat, r.matched[k]? = some (some i) →
    ∃ e f, entries[k]? = some e ∧ fields[i]? = some f ∧ e.Describes f
  ascending : r.missing.Pairwise (· < ·)
  mem_missing : ∀ i : Nat, i ∈ r.missing ↔ i < fields.length ∧ some i ∉ r.matched
  undescribed : ∀ (i : Nat) f, fields[i]? = some f → i ∈ r.missing → ∀ e ∈ entries, ¬e.Describes f

namespace TypeDefinition

variable {fields : List Field} {d d' : TypeDefinition}

/-- The definition with its entries in another order. -/
def permute (d : TypeDefinition) (σ : Equiv.Perm (Fin d.fields.length)) : TypeDefinition :=
  { d with fields := List.ofFn fun k => d.fields[σ k] }

theorem mem_missing_iff {i : Nat} :
    i ∈ (d.reconcile fields).missing ↔ i < fields.length ∧ some i ∉ (d.reconcile fields).matched := by
  simp [reconcile]

/-- Missing fields do not depend on the order of what is matched. -/
theorem missing_eq_of_matched
    (same : ∀ i, some i ∈ (d.reconcile fields).matched ↔ some i ∈ (d'.reconcile fields).matched) :
    (d.reconcile fields).missing = (d'.reconcile fields).missing := by
  refine List.filter_congr fun i _ => ?_
  have here : (matchEntries fields d.fields []).contains (some i) =
      (matchEntries fields d'.fields []).contains (some i) := by
    rw [Bool.eq_iff_iff, List.contains_iff_mem, List.contains_iff_mem]
    exact same i
  rw [here]

section

variable (keys : (fields.map Field.knownBy).Nodup)

include keys

/-- An entry is matched with the field that it describes, if no earlier entry describes it. -/
theorem matched_eq_some_iff {k i : Nat} :
    (d.reconcile fields).matched[k]? = some (some i) ↔
      ∃ e f, d.fields[k]? = some e ∧ fields[i]? = some f ∧ e.Describes f ∧
        ∀ e' ∈ d.fields.take k, ¬e'.Describes f :=
  (matchEntries_eq_some_iff keys d.fields [] k i).trans (and_iff_right List.not_mem_nil)

theorem partialMatching : (d.reconcile fields).PartialMatching d.fields fields where
  length := length_matchEntries fields d.fields []
  distinct := by
    refine List.pairwise_filterMap.2 (List.pairwise_iff_getElem.2 ?_)
    rintro k k' hk hk' before i hi _ hj rfl
    obtain ⟨e, f, here, field, describes, -⟩ :=
      (matched_eq_some_iff keys).1 (List.getElem?_eq_some_iff.2 ⟨hk, hi⟩)
    obtain ⟨-, f', -, field', -, first⟩ :=
      (matched_eq_some_iff keys).1 (List.getElem?_eq_some_iff.2 ⟨hk', hj⟩)
    obtain rfl := Option.some.inj (field.symm.trans field')
    have early : e ∈ d.fields.take k' := by
      refine List.mem_of_getElem? (i := k) ?_
      rw [List.getElem?_take_of_lt before, here]
    exact first e early describes
  described k i matched := by
    obtain ⟨e, f, here, field, describes, -⟩ := (matched_eq_some_iff keys).1 matched
    exact ⟨e, f, here, field, describes⟩
  ascending := List.Pairwise.filter _ List.pairwise_lt_range
  mem_missing _ := mem_missing_iff
  undescribed i f field missing e member describes := by
    -- the first entry that describes the field takes it
    obtain ⟨k, e, here, describes, first⟩ := exists_first (P := (·.Describes f)) ⟨e, member, describes⟩
    exact (mem_missing_iff.1 missing).2 (List.mem_of_getElem?
      ((matched_eq_some_iff keys).2 ⟨e, f, here, field, describes, first⟩))

/-! ## Distinct entries -/

/-- Entries that are known differently are matched each on its own. -/
theorem matched_eq_map (theirs : (d.fields.map FieldEntry.knownBy).Nodup) :
    (d.reconcile fields).matched = d.fields.map fun e => e.match? fields [] := by
  have length : (d.reconcile fields).matched.length = d.fields.length :=
    length_matchEntries fields d.fields []
  refine List.ext_getElem (by rw [length, List.length_map]) fun k here _ => Option.ext fun i => ?_
  have short : k < d.fields.length := length ▸ here
  have read : (d.reconcile fields).matched[k] = some i ↔
      (d.reconcile fields).matched[k]? = some (some i) := by
    rw [List.getElem?_eq_getElem here, Option.some.injEq]
  rw [List.getElem_map, read, matched_eq_some_iff keys, FieldEntry.match?_eq_some_iff_describes keys]
  constructor
  · rintro ⟨e, f, there, field, describes, -⟩
    cases (List.getElem?_eq_getElem short).symm.trans there
    exact ⟨List.not_mem_nil, f, field, describes⟩
  · rintro ⟨-, f, field, describes⟩
    refine ⟨_, f, List.getElem?_eq_getElem short, field, describes, fun e early describes' => ?_⟩
    obtain ⟨j, lt, there⟩ := List.mem_take_iff_getElem.1 early
    have there : d.fields[j]? = some e := List.getElem?_eq_some_iff.2 ⟨by omega, there⟩
    have same := position_eq_of_nodup theirs there (List.getElem?_eq_getElem short)
      (describes'.key.trans describes.key.symm)
    omega

/-- What entries are matched with goes with them to their new places. -/
theorem reconcile_permute (theirs : (d.fields.map FieldEntry.knownBy).Nodup)
    (σ : Equiv.Perm (Fin d.fields.length)) :
    (∀ k : Fin d.fields.length, ((d.permute σ).reconcile fields).matched[(k : Nat)]? =
      (d.reconcile fields).matched[(σ k : Nat)]?) ∧
      ((d.permute σ).reconcile fields).missing = (d.reconcile fields).missing := by
  have perm : (d.permute σ).fields.Perm d.fields := by
    refine (σ.ofFn_comp_perm fun k => d.fields[k]).trans (.of_eq ?_)
    exact List.ofFn_getElem
  have theirs' : ((d.permute σ).fields.map FieldEntry.knownBy).Nodup :=
    (perm.map _).nodup_iff.2 theirs
  refine ⟨fun k => ?_, missing_eq_of_matched fun i => ?_⟩
  · have moved : (d.permute σ).fields[(k : Nat)]? = some d.fields[σ k] := by
      simp [permute]
    rw [matched_eq_map keys theirs, matched_eq_map keys theirs', List.getElem?_map,
      List.getElem?_map, moved, List.getElem?_eq_getElem (σ k).isLt]
    rfl
  · rw [matched_eq_map keys theirs, matched_eq_map keys theirs']
    exact (perm.map _).mem_iff

/-- A definition of the fields themselves is matched in full. -/
theorem reconcile_ofFields (identity : TypeIdentity) :
    (ofFields identity fields).reconcile fields = ⟨(List.range fields.length).map some, []⟩ := by
  have own (f : Field) : (FieldEntry.ofField f).knownBy = f.knownBy := by
    unfold FieldEntry.knownBy Field.knownBy FieldEntry.ofField
    cases f.tag <;> rfl
  have theirs : ((ofFields identity fields).fields.map FieldEntry.knownBy).Nodup := by
    show ((fields.map FieldEntry.ofField).map FieldEntry.knownBy).Nodup
    rw [List.map_map]
    exact (List.map_congr_left fun f _ => own f) ▸ keys
  have matched : ((ofFields identity fields).reconcile fields).matched =
      (List.range fields.length).map some := by
    rw [matched_eq_map keys theirs]
    refine List.ext_getElem (by simp [ofFields]) fun k here _ => ?_
    have short : k < fields.length := by simpa [ofFields] using here
    rw [List.getElem_map, List.getElem_map, List.getElem_range]
    refine (FieldEntry.match?_eq_some_iff_describes keys).2
      ⟨List.not_mem_nil, fields[k], List.getElem?_eq_getElem short, ?_⟩
    simp only [ofFields, List.getElem_map]
    exact ⟨own _, FieldType.bare_withTracked _ _⟩
  have missing : ((ofFields identity fields).reconcile fields).missing = [] := by
    refine List.eq_nil_iff_forall_not_mem.2 fun i absent => ?_
    obtain ⟨short, unmatched⟩ := mem_missing_iff.1 absent
    rw [matched] at unmatched
    exact unmatched (List.mem_map_of_mem (List.mem_range.2 short))
  exact congrArg₂ Reconciliation.mk matched missing

end

/-- Where no two of our fields have one name or one tag, any definition is matched with them one to one:
each entry with a field of its key and type, if with any, and only fields that no entry describes are
missing. The definition of the fields themselves is matched field by field. The order of entries with
distinct keys does not matter. -/
theorem reconcile_matches (names : (fields.map (·.name)).Nodup)
    (tags : (fields.filterMap (·.tag)).Nodup) :
    (∀ d : TypeDefinition, (d.reconcile fields).PartialMatching d.fields fields) ∧
    (∀ identity, (ofFields identity fields).reconcile fields =
      ⟨(List.range fields.length).map some, []⟩) ∧
    ∀ d : TypeDefinition, (d.fields.map FieldEntry.knownBy).Nodup →
      ∀ σ : Equiv.Perm (Fin d.fields.length),
        (∀ k : Fin d.fields.length, ((d.permute σ).reconcile fields).matched[(k : Nat)]? =
          (d.reconcile fields).matched[(σ k : Nat)]?) ∧
        ((d.permute σ).reconcile fields).missing = (d.reconcile fields).missing :=
  have keys := nodup_knownBy names tags
  ⟨fun _ => partialMatching keys, reconcile_ofFields keys,
    fun _ theirs σ => reconcile_permute keys theirs σ⟩

/-- Fields with a name, a tag, and a name again. -/
def ageTitleScore : List Field :=
  [FieldDecl.ofShape "age" (.scalar .int32),
    { FieldDecl.ofShape "title" (.scalar .string) with tag := some 1 },
    FieldDecl.ofShape "score" (.scalar .int32)].mapIdx (Field.resolve (fun _ => none) false "demo.User")

/-- The first of two entries for a score has another type. The second one and the two for a title follow
after it, and a field that nobody has. -/
def scoresAndTitles : TypeDefinition :=
  ⟨0, .id 1, [⟨"score", none, .mk .int64 false false []⟩, ⟨"score", none, .mk .int32 true true []⟩,
    ⟨"", some 1, .mk .string false false []⟩, ⟨"", some 1, .mk .string false false []⟩,
    ⟨"title", none, .mk .string false false []⟩]⟩

/-- Entries of distinct keys. -/
def titleGoneAge : TypeDefinition :=
  ⟨0, .id 1, [⟨"", some 1, .mk .string false false []⟩, ⟨"gone", none, .mk .bool false false []⟩,
    ⟨"age", none, .mk .int32 false false []⟩]⟩

/-- The first place and the last one change. -/
def outerPlaces : Equiv.Perm (Fin titleGoneAge.fields.length) :=
  Equiv.swap ⟨0, by decide⟩ ⟨2, by decide⟩

theorem reconcile_matches_user :
    ((ageTitleScore.map (·.name)).Nodup ∧ (ageTitleScore.filterMap (·.tag)).Nodup) ∧
    (scoresAndTitles.reconcile ageTitleScore = ⟨[none, some 2, some 1, none, none], [0]⟩ ∧
      (scoresAndTitles.reconcile ageTitleScore).PartialMatching scoresAndTitles.fields
        ageTitleScore) ∧
    (ofFields (.id 1) ageTitleScore).reconcile ageTitleScore = ⟨[some 0, some 1, some 2], []⟩ ∧
    (titleGoneAge.fields.map FieldEntry.knownBy).Nodup ∧
    titleGoneAge.reconcile ageTitleScore = ⟨[some 1, none, some 0], [2]⟩ ∧
    (∀ k : Fin titleGoneAge.fields.length,
      ((titleGoneAge.permute outerPlaces).reconcile ageTitleScore).matched[(k : Nat)]? =
        (titleGoneAge.reconcile ageTitleScore).matched[(outerPlaces k : Nat)]?) ∧
    ((titleGoneAge.permute outerPlaces).reconcile ageTitleScore).missing =
      (titleGoneAge.reconcile ageTitleScore).missing := by
  have names : (ageTitleScore.map (·.name)).Nodup := by decide
  have tags : (ageTitleScore.filterMap (·.tag)).Nodup := by decide
  have theirs : (titleGoneAge.fields.map FieldEntry.knownBy).Nodup := by decide
  obtain ⟨partial_, own, permuted⟩ := reconcile_matches names tags
  exact ⟨⟨names, tags⟩, ⟨by decide, partial_ _⟩, own _, theirs, by decide,
    permuted titleGoneAge theirs outerPlaces⟩

end TypeDefinition

end Graphwire
