import Graphwire.Proofs.Strategies
import Graphwire.Proofs.Trees

/-!
# Graphs that come back

With references a graph comes back as it was, shared nodes and cycles included. The writer numbers
nodes in the order in which it meets them, and the reader adds them in that order, so the number of
a node is also its place in the new graph. A node is numbered before its contents are written, and
stands behind its number before they are read.
-/

namespace Graphwire

set_option autoImplicit false

/-! ## Renamed values -/

/-- A value under another name of its node. -/
def Value.rename (f : Handle → Handle) : Value → Value
  | .handle h => .handle (f h)
  | v => v

theorem Value.isNull_rename (f : Handle → Handle) (v : Value) : (v.rename f).isNull = v.isNull := by
  cases v <;> rfl

theorem Value.rename_of_scalar {v : Value} (f : Handle → Handle) (scalar : v.handle? = none) :
    v.rename f = v := by
  cases v <;> first | rfl | cases scalar

/-- The record with the declared fields alone, and of these without nulls. -/
def Record.declared (types : Registry) (r : Record) : Record :=
  { r with fields := r.fields.filter fun name v =>
    (types.field? r.typeName name).isSome && !v.isNull }

/-- What is written of a node. -/
def Node.declared (types : Registry) : Node → Node
  | .record r => .record (r.declared types)
  | n => n

/-- A record whose declared fields were all filled with renamed values. -/
theorem Record.declared_of_filled {types : Registry} {s : StructType} {r r' : Record}
    {f : Handle → Handle} (found : types.struct? r.typeName = some s)
    (filled : Record.Filled (fun field v => v = (r.value field.name).rename f) s.fields
      (.ofType r.typeName) r') :
    Node.record r' = ((Node.record r).declared types).mapValues (Value.rename f) := by
  have fields : r'.fields = (r.declared types).fields.mapValues (Value.rename f) := by
    apply FieldTable.ext
    intro name
    have declared : types.field? r.typeName name = s.fields.find? (·.name = name) := by
      rw [Registry.field?, found]
      rfl
    rw [FieldTable.get?_mapValues, Record.declared, FieldTable.get?_filter, declared]
    cases known : s.fields.find? (·.name = name) with
    | none =>
      have absent : name ∉ s.fields.map (·.name) := by simpa using List.find?_eq_none.1 known
      refine (filled.other name absent).trans ?_
      cases r.fields.get? name <;> rfl
    | some field =>
      have same : field.name = name := by simpa using List.find?_some known
      subst same
      obtain ⟨v, rfl, value⟩ := filled.field field (List.mem_of_find?_eq_some known)
      apply value.trans
      have unset : (Record.ofType r.typeName).get? field.name = none := rfl
      rw [Value.isNull_rename, Record.value, unset]
      show _ = ((r.get? field.name).filter _).map _
      cases r.get? field.name with
      | none => rfl
      | some v => cases null : v.isNull <;> simp [Option.filter, null]
  obtain ⟨name, table⟩ := r'
  cases (filled.typeName : name = r.typeName)
  cases (fields : table = _)
  rfl

/-- The values in a record are those of its declared fields that are not null. -/
theorem Record.mem_declared_iff {types : Registry} {s : StructType} {r : Record} {v : Value}
    (found : types.struct? r.typeName = some s) (names : (s.fields.map (·.name)).Nodup) :
    v ∈ ((Node.record r).declared types).contents ↔
      v.isNull = false ∧ ∃ field ∈ s.fields, r.value field.name = v := by
  have mem : v ∈ ((Node.record r).declared types).contents ↔ ∃ name, (name, v) ∈ r.fields.entries ∧
      (types.field? r.typeName name).isSome = true ∧ v.isNull = false := by
    simp [Node.declared, Node.contents, Record.declared, FieldTable.filter]
  rw [mem]
  constructor
  · rintro ⟨name, member, declared, present⟩
    obtain ⟨field, known⟩ := Option.isSome_iff_exists.1 declared
    rw [Registry.field?, found, Option.bind_some] at known
    have same : field.name = name := by simpa using List.find?_some known
    subst same
    refine ⟨present, field, List.mem_of_find?_eq_some known, ?_⟩
    have value : r.get? field.name = some v := lookup_of_mem r.fields.sorted member
    rw [Record.value, value, Option.getD_some]
  · rintro ⟨present, field, member, value⟩
    refine ⟨field.name, ?_, by rw [Registry.field?_eq_some found names member]; rfl, present⟩
    rw [Record.value] at value
    cases set : r.get? field.name with
    | none =>
      rw [set] at value
      subst value
      cases present
    | some w =>
      rw [set, Option.getD_some] at value
      subst value
      exact mem_of_lookup set

/-- The handles that a value reaches through elements, entries and declared fields. -/
inductive Graph.Reaches (types : Registry) (g : Graph) (v : Value) : Handle → Prop where
  | root {h : Handle} (same : v = .handle h) : Reaches types g v h
  | step {h k : Handle} (reached : Reaches types g v h)
      (holds : .handle k ∈ ((g.node h).declared types).contents) : Reaches types g v k

/-- Whether a value is a node or a scalar that comes back as it was. -/
def Value.Simple : Value → Prop
  | .enum .. | .timestamp _ => False
  | v => v.Short

/-- Whether the length of a container can be written, or a record is of a type with an identifier
whose fields all admit every value and references. -/
def Node.Fits (types : Registry) : Node → Prop
  | .list vs | .set vs => vs.length < 2 ^ 32
  | .map pairs => pairs.length < 2 ^ 32
  | .record r => ∃ s id, types.struct? r.typeName = some s ∧ s.id = some id ∧ id < 2 ^ 32 ∧
      ∀ f ∈ s.fields, f.shape = .dynamic ∧ f.refEligible = true

/-- Whether a node can come back as it was, apart from what it holds in other nodes. -/
structure Node.Portable (types : Registry) (n : Node) : Prop where
  fits : n.Fits types
  contents : ∀ v ∈ (n.declared types).contents, v.Simple

/-- A set of portable nodes that holds what they hold and has no more nodes than there are reference
numbers. -/
structure Region (types : Registry) (g : Graph) (R : Handle → Prop) : Prop where
  portable : ∀ h, R h → (g.node h).Portable types
  closed : ∀ h k, R h → .handle k ∈ ((g.node h).declared types).contents → R k
  few : ∀ l : List Handle, l.Nodup → (∀ h ∈ l, R h) → l.length ≤ 2 ^ 32

/-! ## Numbered nodes -/

/-- Whether a graph has a number of nodes, each behind its place as reference number. -/
structure Numbered (n : Nat) (g : Graph) (slots : Slots) : Prop where
  size : g.size = n
  count : slots.values.size = n
  value : ∀ i, i < n → slots.values[i]? = some (some (.handle ⟨i⟩))

/-- Numbered nodes, and one number more for the node that comes next. -/
structure Reserved (n : Nat) (g : Graph) (slots : Slots) : Prop where
  size : g.size = n
  count : slots.values.size = n + 1
  value : ∀ i, i < n → slots.values[i]? = some (some (.handle ⟨i⟩))

theorem Numbered.reserve {n : Nat} {g : Graph} {slots : Slots} (h : Numbered n g slots)
    (few : n < 2 ^ 32) : Reserved n g slots.reserve.2 ∧ slots.reserve.1 = n := by
  refine ⟨⟨h.size, ?_, fun i lt => ?_⟩, (Slots.number_reserve (h.count ▸ few)).trans h.count⟩
  · simp [Slots.reserve, h.count]
  · have ne : i ≠ slots.values.size := by rw [h.count]; omega
    simp [Slots.reserve, Array.getElem?_push, ne, h.value i lt]

/-- The next node stands behind its number once it is added. -/
theorem Reserved.opened {n : Nat} {st : ReadState} (h : Reserved n st.graph st.slots)
    (node : Node) :
    Numbered (n + 1) (st.opened node (some n)).graph (st.opened node (some n)).slots := by
  refine ⟨by simp [ReadState.opened, h.size], by simp [ReadState.opened, Slots.fill, h.count],
    fun i lt => ?_⟩
  by_cases last : i = n
  · subst last
    simp [ReadState.opened, Slots.fill, h.count, h.size]
  · have before := h.value i (by omega)
    simp [ReadState.opened, Slots.fill, Ne.symm last, before]

theorem Numbered.set {n : Nat} {g : Graph} {slots : Slots} (h : Numbered n g slots) (k : Handle)
    (node : Node) : Numbered n (g.set k node) slots :=
  ⟨by simp [h.size], h.count, h.value⟩

/-- A value that stands behind its number can be put there again. -/
theorem Numbered.fill {n i : Nat} {g : Graph} {slots : Slots} (h : Numbered n g slots) :
    Numbered n g (slots.fill i (.handle ⟨i⟩)) := by
  refine ⟨h.size, by simp [Slots.fill, h.count], fun j small => ?_⟩
  by_cases same : i = j
  · subst same
    simp [Slots.fill, h.count, small]
  · simp [Slots.fill, same, h.value j small]

/-! ## Carrying values over -/

/-- Whether handles were appended in the order in which a writer meets them: all belong to the set,
none occurs twice, and with a handle that is not among the first ones so do all that its node
holds. -/
structure Grown (types : Registry) (g : Graph) (R : Handle → Prop) (seen seen' : List Handle) :
    Prop where
  begins : seen <+: seen'
  nodup : seen'.Nodup
  within : ∀ h ∈ seen', R h
  closed : ∀ i h, seen.length ≤ i → seen'[i]? = some h →
    ∀ k, .handle k ∈ ((g.node h).declared types).contents → k ∈ seen'

/-- Whether a naming takes the handles that a writer met to their places. -/
def Follows (f : Handle → Handle) (seen : List Handle) : Prop :=
  ∀ i h, seen[i]? = some h → f h = ⟨i⟩

/-- Whether a graph has at the places from some number on what the writer met, under new names. -/
def Copied (types : Registry) (g : Graph) (f : Handle → Handle) (start : Nat) (seen : List Handle)
    (g' : Graph) : Prop :=
  ∀ i h, start ≤ i → seen[i]? = some h →
    g'.node ⟨i⟩ = ((g.node h).declared types).mapValues (Value.rename f)

variable {types : Registry} {g : Graph} {R : Handle → Prop} {f : Handle → Handle}
  {seen seen₁ seen₂ : List Handle}

theorem getElem?_of_begins {l l' : List Handle} {i : Nat} {h : Handle} (begins : l <+: l')
    (found : l[i]? = some h) : l'[i]? = some h := by
  obtain ⟨rest, rfl⟩ := begins
  rw [List.getElem?_append_left (List.getElem?_eq_some_iff.1 found).1, found]

theorem getElem?_of_lt_of_begins {l l' : List Handle} {i : Nat} {h : Handle} (begins : l <+: l')
    (lt : i < l.length) (found : l'[i]? = some h) : l[i]? = some h := by
  obtain ⟨rest, rfl⟩ := begins
  rwa [List.getElem?_append_left lt] at found

theorem Follows.of_begins (h : Follows f seen₁) (begins : seen <+: seen₁) : Follows f seen :=
  fun i k found => h i k (getElem?_of_begins begins found)

theorem Grown.refl (nodup : seen.Nodup) (within : ∀ h ∈ seen, R h) :
    Grown types g R seen seen :=
  ⟨List.prefix_refl _, nodup, within, fun _ _ le found =>
    absurd (List.getElem?_eq_some_iff.1 found).1 (Nat.not_lt.2 le)⟩

theorem Grown.trans (h₁ : Grown types g R seen seen₁) (h₂ : Grown types g R seen₁ seen₂) :
    Grown types g R seen seen₂ := by
  refine ⟨h₁.begins.trans h₂.begins, h₂.nodup, h₂.within, fun i h le found k holds => ?_⟩
  by_cases old : i < seen₁.length
  · exact h₂.begins.subset (h₁.closed i h le (getElem?_of_lt_of_begins h₂.begins old found) k holds)
  · exact h₂.closed i h (Nat.not_lt.1 old) found k holds

theorem Copied.refl (f : Handle → Handle) (seen : List Handle) (g' : Graph) :
    Copied types g f seen.length seen g' :=
  fun _ _ le found => absurd (List.getElem?_eq_some_iff.1 found).1 (Nat.not_lt.2 le)

theorem Copied.trans {g₁ g₂ : Graph} {start : Nat} (h₁ : Copied types g f start seen₁ g₁)
    (h₂ : Copied types g f seen₁.length seen₂ g₂) (begins : seen₁ <+: seen₂)
    (kept : ∀ i, start ≤ i → i < seen₁.length → g₂.node ⟨i⟩ = g₁.node ⟨i⟩) :
    Copied types g f start seen₂ g₂ := by
  intro i h le found
  by_cases old : i < seen₁.length
  · rw [kept i le old]
    exact h₁ i h le (getElem?_of_lt_of_begins begins old found)
  · exact h₂ i h (Nat.not_lt.1 old) found

/-- Whether a graph was extended by copies, all numbered, of what the writer met from some number
on. -/
structure Rebuilt (types : Registry) (g : Graph) (f : Handle → Handle) (start : Nat)
    (seen : List Handle) (old new : Graph) (slots : Slots) : Prop where
  numbered : Numbered seen.length new slots
  ext : old.Extends new
  copied : Copied types g f start seen new

theorem Rebuilt.refl {old : Graph} {slots : Slots} (numbered : Numbered seen.length old slots) :
    Rebuilt types g f seen.length seen old old slots := ⟨numbered, .refl _, .refl f _ _⟩

theorem Rebuilt.trans {old g₁ g₂ : Graph} {slots₁ slots₂ : Slots} {start : Nat}
    (h₁ : Rebuilt types g f start seen₁ old g₁ slots₁)
    (h₂ : Rebuilt types g f seen₁.length seen₂ g₁ g₂ slots₂) (begins : seen₁ <+: seen₂) :
    Rebuilt types g f start seen₂ old g₂ slots₂ :=
  ⟨h₂.numbered, h₁.ext.trans h₂.ext, h₁.copied.trans h₂.copied begins fun i _ lt =>
    h₂.ext.node ⟨i⟩ (by rw [h₁.numbered.size]; exact lt)⟩

/-- Whether a record was filled, and the graph extended by copies, all numbered, of what the writer
met from some number on. -/
structure Refilled (types : Registry) (g : Graph) (f : Handle → Handle) (h : Handle) (start : Nat)
    (seen : List Handle) (old new : Graph) (slots : Slots) : Prop where
  numbered : Numbered seen.length new slots
  altered : old.Alters new h
  copied : Copied types g f start seen new

theorem Refilled.refl {old : Graph} {slots : Slots} {h : Handle}
    (numbered : Numbered seen.length old slots) :
    Refilled types g f h seen.length seen old old slots := ⟨numbered, .refl _ _, .refl f _ _⟩

theorem Refilled.trans {old g₁ g₂ : Graph} {slots₁ slots₂ : Slots} {h : Handle} {start : Nat}
    (h₁ : Refilled types g f h start seen₁ old g₁ slots₁)
    (h₂ : Refilled types g f h seen₁.length seen₂ g₁ g₂ slots₂) (begins : seen₁ <+: seen₂)
    (before : h.index < start) : Refilled types g f h start seen₂ old g₂ slots₂ := by
  refine ⟨h₂.numbered, h₁.altered.trans h₂.altered, h₁.copied.trans h₂.copied begins fun i le lt => ?_⟩
  have ne : (⟨i⟩ : Handle) ≠ h := fun same => by subst same; exact Nat.not_lt.2 le before
  exact h₂.altered.other _ ne (by rw [h₁.numbered.size]; exact lt)

/-- The record that is filled is replaced. -/
theorem Rebuilt.put {old new new' : Graph} {slots : Slots} {h : Handle} {n : Node} {start : Nat}
    (rebuilt : Rebuilt types g f start seen old new slots) (put : new.Replaces new' h n)
    (before : h.index < start) : Refilled types g f h start seen old new' slots := by
  refine ⟨⟨put.size.trans rebuilt.numbered.size, rebuilt.numbered.count, rebuilt.numbered.value⟩,
    rebuilt.ext.replaced put, fun i k le found => ?_⟩
  have ne : (⟨i⟩ : Handle) ≠ h := fun same => by subst same; exact Nat.not_lt.2 le before
  rw [put.other _ ne]
  exact rebuilt.copied i k le found

open Write (Ensures)
open Read (Runs)

/-- Whether the bytes that a writer wrote of the values of a list are read back as them under new
names. -/
structure Carried {α : Type} (types : Registry) (g : Graph) (R : Handle → Prop) (vs : List Value)
    (read : Read α) (result : (Handle → Handle) → α) (seen : List Handle) (bytes : List UInt8)
    (seen' : List Handle) : Prop where
  grown : Grown types g R seen seen'
  met : ∀ h, .handle h ∈ vs → h ∈ seen'
  reads : ∀ f, Follows f seen' → ∀ st : ReadState, Numbered seen.length st.graph st.slots →
    Runs read st bytes fun a st' =>
      a = result f ∧ Rebuilt types g f seen.length seen' st.graph st'.graph st'.slots

/-- Whether all that a step writes of the values of a list is read back as them under new names. -/
def Carries {α : Type} (types : Registry) (g : Graph) (R : Handle → Prop) (vs : List Value)
    (write : Write (List UInt8)) (read : Read α) (result : (Handle → Handle) → α) : Prop :=
  ∀ ws : WriteState, ws.seen.handles.Nodup → (∀ h ∈ ws.seen.handles, R h) →
    Ensures write ws fun bytes ws' =>
      Carried types g R vs read result ws.seen.handles bytes ws'.seen.handles

section

variable {α β γ : Type} {vs vs' : List Value} {write write' : Write (List UInt8)} {read : Read α}
  {read' : Read β} {result : (Handle → Handle) → α} {result' : (Handle → Handle) → β}

/-- What the writer does not note the reader takes as it is. -/
theorem Carried.takes {bytes : List UInt8} {a : α} (takes : Read.Takes read bytes a)
    (same : ∀ f, a = result f) (unmet : ∀ h, .handle h ∉ vs) (nodup : seen.Nodup)
    (within : ∀ h ∈ seen, R h) : Carried types g R vs read result seen bytes seen :=
  ⟨.refl nodup within, fun h member => absurd member (unmet h),
    fun f _ _ numbered => takes.runs ⟨same f, .refl numbered⟩⟩

theorem Carries.pure (a : α) : Carries types g R [] (pure []) (pure a) fun _ => a :=
  fun _ nodup within => .pure (.takes (.pure a) (fun _ => rfl) (fun _ => List.not_mem_nil) nodup within)

/-- One thing after the other. -/
theorem Carries.pair (first : Carries types g R vs write read result)
    (second : Carries types g R vs' write' read' result') (combine : α → β → γ) :
    Carries types g R (vs ++ vs') (do return (← write) ++ (← write'))
      (do
        let a ← read
        let b ← read'
        return combine a b)
      fun f => combine (result f) (result' f) := by
  intro ws nodup within
  refine (first ws nodup within).bind ?_
  intro front ws₁ h₁
  refine (second ws₁ h₁.grown.nodup h₁.grown.within).bind ?_
  intro back ws₂ h₂
  refine .pure ⟨h₁.grown.trans h₂.grown, fun h member => ?_, fun f follows st numbered => ?_⟩
  · rcases List.mem_append.1 member with member | member
    · exact h₂.grown.begins.subset (h₁.met h member)
    · exact h₂.met h member
  · apply (h₁.reads f (follows.of_begins h₂.grown.begins) st numbered).bind
    rintro a st₁ ⟨same₁, rebuilt₁⟩
    apply (h₂.reads f follows st₁ rebuilt₁.numbered).then
    rintro b st₂ ⟨same₂, rebuilt₂⟩
    exact .pure ⟨by rw [same₁, same₂], rebuilt₁.trans rebuilt₂ h₂.grown.begins⟩

theorem Carries.concat {items : List β} {write : β → Write (List UInt8)} (parts : β → List Value)
    (result : (Handle → Handle) → β → α)
    (step : ∀ b ∈ items, Carries types g R (parts b) (write b) read fun f => result f b) :
    Carries types g R (items.flatMap parts) (Write.concat write items)
      (Read.many read items.length) fun f => items.map (result f) := by
  induction items with
  | nil => exact .pure []
  | cons b items ih =>
    obtain ⟨first, others⟩ := List.forall_mem_cons.1 step
    exact first.pair (ih others) List.cons

end

/-! ## Values -/

theorem Value.Simple.short {v : Value} (h : v.Simple) : v.Short := by
  cases v <;> first | exact h | cases h

theorem Value.Simple.cut {v : Value} (h : v.Simple) : v.cut = v := by
  cases v <;> first | rfl | cases h

/-- Whether the bytes of a node that just got the next number are read back as a node at the next
place, together with copies of all nodes that were met in it. -/
structure Settled (types : Registry) (g : Graph) (R : Handle → Prop) (h : Handle)
    (read : Read Value) (before : List Handle) (bytes : List UInt8) (seen' : List Handle) :
    Prop where
  begins : before ++ [h] <+: seen'
  grown : Grown types g R before seen'
  reads : ∀ f, Follows f seen' → ∀ st : ReadState, Reserved before.length st.graph st.slots →
    Runs read st bytes fun v st' =>
      v = .handle ⟨before.length⟩ ∧
        Rebuilt types g f before.length seen' st.graph st'.graph st'.slots

/-- Whether what a writer of payloads writes is read back: a scalar as it was, and a node at the
next place. -/
structure Transfers (env : Environment) (g : Graph) (R : Handle → Prop) (write : WritePayload)
    (read : ReadPayload) : Prop where
  scalar : ∀ v wire ws, v.handle? = none → v.Simple → env.Announces g v wire →
    Ensures (write wire .dynamic v) ws fun bytes ws' =>
      ws' = ws ∧ Read.Takes (read wire .dynamic none) bytes v
  node : ∀ h wire ws before, R h → env.Announces g (.handle h) wire →
    ws.seen.handles = before ++ [h] → ws.seen.handles.Nodup → (∀ k ∈ ws.seen.handles, R k) →
    Ensures (write wire .dynamic (.handle h)) ws fun bytes ws' =>
      Settled env.registry g R h (read wire .dynamic (some before.length)) before bytes
        ws'.seen.handles

section

variable {α : Type} {f : Handle → Handle} {before : List Handle} {h : Handle} {st : ReadState}
  {empty full : Node} {g' : Graph} {slots : Slots} {bytes : List UInt8}

/-- A node that got a number belongs to the handles that were appended, once all that it holds was
met. -/
theorem Grown.node (grown : Grown types g R (before ++ [h]) seen)
    (met : ∀ k, .handle k ∈ ((g.node h).declared types).contents → k ∈ seen) :
    Grown types g R before seen := by
  refine ⟨(List.prefix_append ..).trans grown.begins, grown.nodup, grown.within,
    fun i k le found => ?_⟩
  by_cases first : i = before.length
  · subst first
    have place : seen[before.length]? = some h := getElem?_of_begins grown.begins (by simp)
    cases place.symm.trans found
    exact met
  · exact grown.closed i k (by simp; omega) found

/-- The copy of a node comes before the copies of what was met in it. -/
theorem Copied.node (copied : Copied types g f (before.length + 1) seen g')
    (place : seen[before.length]? = some h)
    (node : g'.node ⟨before.length⟩ = ((g.node h).declared types).mapValues (Value.rename f)) :
    Copied types g f before.length seen g' := by
  intro i k le found
  by_cases first : i = before.length
  · subst first
    cases place.symm.trans found
    exact node
  · exact copied i k (by omega) found

/-- A node that was added empty, and is replaced by a copy once its contents were read. -/
theorem Rebuilt.closed (reserved : Reserved before.length st.graph st.slots)
    (place : seen[before.length]? = some h)
    (rebuilt : Rebuilt types g f (before.length + 1) seen
      (st.opened empty (some before.length)).graph g' slots)
    (node : full = ((g.node h).declared types).mapValues (Value.rename f)) :
    Rebuilt types g f before.length seen st.graph (g'.set ⟨st.graph.size⟩ full) slots := by
  have bound : st.graph.size < g'.size := by
    have := rebuilt.ext.size
    simp only [ReadState.opened, Graph.size_alloc] at this
    omega
  refine ⟨rebuilt.numbered.set .., ((Graph.Extends.alloc ..).trans rebuilt.ext).set (Nat.le_refl _) full,
    Copied.node (fun i k le found => ?_) place ?_⟩
  · have ne : (⟨st.graph.size⟩ : Handle) ≠ ⟨i⟩ := fun same => by
      cases same
      have := reserved.size
      omega
    rw [Graph.node_set_other _ _ _ _ ne]
    exact rebuilt.copied i k le found
  · rw [← reserved.size, Graph.node_set_self _ ⟨st.graph.size⟩ _ bound, node]

/-- A node comes back if its contents do. -/
theorem Carried.settled {read : Read α} {readNode : Read Value} {bytes' : List UInt8}
    {result : (Handle → Handle) → α}
    (carried : Carried types g R ((g.node h).declared types).contents read result (before ++ [h])
      bytes seen)
    (empty : Node) (full : α → Node)
    (node : ∀ f, full (result f) = ((g.node h).declared types).mapValues (Value.rename f))
    (runs : ∀ (st : ReadState) Q,
      Runs read (st.opened empty (some before.length)) bytes
        (fun a st' => Q (.handle ⟨st.graph.size⟩)
          { st' with graph := st'.graph.set ⟨st.graph.size⟩ (full a) }) →
      Runs readNode st bytes' Q) :
    Settled types g R h readNode before bytes' seen := by
  refine ⟨carried.grown.begins, carried.grown.node carried.met, ?_⟩
  intro f follows st reserved
  have numbered := reserved.opened empty
  apply runs
  apply (carried.reads f follows _ (by simpa using numbered)).mono
  rintro a st' ⟨same, rebuilt⟩
  have place : seen[before.length]? = some h := getElem?_of_begins carried.grown.begins (by simp)
  rw [List.length_append] at rebuilt
  exact ⟨congrArg (fun n => Value.handle ⟨n⟩) reserved.size,
    rebuilt.closed reserved place (same ▸ node f)⟩

end

section

variable {env : Environment} {write : WritePayload} {read : ReadPayload}

/-- Elements without a declared shape are preceded by reference markers. -/
theorem Environment.refMode_dynamic (tracked : env.config.trackRef = true) (elements : List Value) :
    (env.elementHeader none elements).refMode = .tracking := by
  simp [ElementHeader.refMode, elementHeader, tracked, RefMode.ofFlags]

variable (region : Region env.registry g R)

include region

theorem Region.identifies {v : Value} (simple : v.Simple) (inside : ∀ h, v = .handle h → R h) :
    env.Identifies g v := by
  refine ⟨fun r s isRecord found => ?_, fun name ordinal e same _ => ?_,
    fun name ordinal same _ => ?_⟩
  · cases v with
    | handle h =>
      have node : g.node h = .record r := Option.some.inj (Graph.nodeOf?_of_asRecord? isRecord)
      have fits := (region.portable h (inside h rfl)).fits
      rw [node] at fits
      obtain ⟨s', id, found', ident, small, -⟩ := fits
      cases found.symm.trans found'
      rw [ident]
      exact small
    | _ => cases isRecord
  · subst same
    cases simple
  · subst same
    cases simple

variable (strict : env.Strict) (unlimited : env.config.limits = .unlimited)
  (transfers : Transfers env g R write read)

include strict transfers

theorem Transfers.marked_scalar {v : Value} (simple : v.Simple) (scalar : v.handle? = none) :
    Carries env.registry g R [v] (Write.marked env g write .tracking true .dynamic v)
      (Read.marked env read .tracking true .dynamic) fun f => v.rename f := by
  intro ws nodup within
  have unmet : ∀ h, .handle h ∉ [v] := fun h member => by
    rw [← List.mem_singleton.1 member] at scalar
    cases scalar
  have inside : ∀ h, v = .handle h → R h := fun h same => absurd (by simp [same]) (unmet h)
  refine Write.ensures_marked (SeenHandles.mark_scalar scalar) (fun null => ?_) fun present => ?_
  · rw [if_pos null]
    have same : v = .null := Value.eq_null_of_isNull null
    exact .takes (Read.takes_marked_null (by decide)) (fun f => by rw [same]; rfl) unmet nodup within
  · rw [if_neg (by simp [present])]
    refine Write.ensures_typed strict (fun _ => region.identifies simple inside) ?_
    intro info wire told known
    cases told with
    | announced announced =>
      refine (transfers.scalar v wire _ scalar simple announced).mono ?_
      rintro bytes ws' ⟨same, takes⟩
      subst same
      refine ⟨.refl nodup within, fun h member => absurd member (unmet h), fun f _ st numbered => ?_⟩
      apply Read.runs_marked_notNull (by decide)
      rw [Read.typed_eq]
      refine .after known (takes.runs ?_)
      exact ⟨(v.rename_of_scalar f scalar).symm, .refl numbered⟩

/-- A node that was met comes back as its number. A new one gets the next number. -/
theorem Transfers.marked_handle {h : Handle} (inside : R h) :
    Carries env.registry g R [.handle h]
      (Write.marked env g write .tracking true .dynamic (.handle h))
      (Read.marked env read .tracking true .dynamic) fun f => .handle (f h) := by
  intro ws nodup within
  have met {seen : List Handle} {number : Nat} (place : seen[number]? = some h) :
      ∀ k, .handle k ∈ [Value.handle h] → k ∈ seen := fun k member => by
    cases List.mem_singleton.1 member
    exact List.mem_of_getElem? place
  by_cases known : h ∈ ws.seen.handles
  · obtain ⟨number, place, marking⟩ := SeenHandles.mark_known known
    have lt := (List.getElem?_eq_some_iff.1 place).1
    have small : number < 2 ^ 32 := Nat.lt_of_lt_of_le lt (region.few _ nodup within)
    refine Write.ensures_marked marking (fun _ => ?_) nofun
    refine ⟨.refl nodup within, met place, fun f follows st numbered => ?_⟩
    apply Read.runs_marked_ref small (numbered.value number lt)
    exact ⟨congrArg Value.handle (follows number h place).symm, .refl numbered⟩
  · have simple : (Value.handle h).Simple := trivial
    refine Write.ensures_marked (SeenHandles.mark_new known) nofun ?_
    intro _
    refine Write.ensures_typed strict (fun _ => region.identifies simple fun _ same => by
      cases same; exact inside) ?_
    intro info wire told takes
    cases told with
    | announced announced =>
      have nodup' : (ws.seen.handles ++ [h]).Nodup := by
        rw [← List.concat_eq_append]
        exact nodup.concat known
      have within' : ∀ k ∈ ws.seen.handles ++ [h], R k := fun k member => by
        rcases List.mem_append.1 member with member | member
        · exact within k member
        · exact List.mem_singleton.1 member ▸ inside
      refine (transfers.node h wire { ws with seen := ⟨ws.seen.handles ++ [h]⟩ } _ inside
        announced rfl nodup' within').mono ?_
      intro bytes ws' settled
      have place : ws'.seen.handles[ws.seen.handles.length]? = some h :=
        getElem?_of_begins settled.begins (by simp)
      refine ⟨settled.grown, met place, fun f follows st numbered => ?_⟩
      have few : ws.seen.handles.length < 2 ^ 32 := by
        have count := region.few _ nodup' within'
        rw [List.length_append, List.length_singleton] at count
        exact count
      obtain ⟨reserved, number⟩ := numbered.reserve few
      apply Read.runs_marked_newRef
      rw [number, Read.typed_eq]
      refine .after takes ?_
      apply (settled.reads f follows _ reserved).mono
      rintro v st' ⟨same, rebuilt⟩
      subst same
      exact ⟨congrArg Value.handle (follows _ h place).symm, rebuilt.numbered.fill, rebuilt.ext,
        rebuilt.copied⟩

/-- A value in a node comes back under its new name. -/
theorem Transfers.marked {v : Value} (simple : v.Simple) (inside : ∀ h, v = .handle h → R h) :
    Carries env.registry g R [v] (Write.marked env g write .tracking true .dynamic v)
      (Read.marked env read .tracking true .dynamic) fun f => v.rename f := by
  cases handle : v.handle? with
  | none => exact transfers.marked_scalar region strict simple handle
  | some h =>
    have same : v = .handle h := by cases v <;> cases handle; rfl
    subst same
    exact transfers.marked_handle region strict (inside h rfl)

variable {vs : List Value} (simple : ∀ v ∈ vs, v.Simple) (inside : ∀ h, .handle h ∈ vs → R h)

include simple inside

/-- Elements without a declared shape come back under their new names. -/
theorem Transfers.elements (tracked : env.config.trackRef = true) (others : List Value) :
    Carries env.registry g R vs
      (Write.concat (Write.element env g write (env.elementHeader none others) none) vs)
      (Read.many (Read.element env read (env.elementHeader none others) none) vs.length)
      fun f => vs.map (Value.rename f) := by
  have mode := env.refMode_dynamic tracked others
  have run := Carries.concat (fun v => [v]) (fun f v => v.rename f) fun v (member : v ∈ vs) =>
      transfers.marked region strict (simple v member) fun h same => inside h (same ▸ member)
  rw [List.flatMap_singleton'] at run
  unfold Write.element Read.element
  rw [mode]
  exact run

omit simple inside

/-- Entries without declared shapes come back under their new names. -/
theorem Transfers.entries {pairs : List (Value × Value)} (tracked : env.config.trackRef = true)
    (simple : ∀ v ∈ (Node.map pairs).contents, v.Simple)
    (inside : ∀ h, .handle h ∈ (Node.map pairs).contents → R h) (keys values : List Value) :
    Carries env.registry g R (Node.map pairs).contents
      (Write.concat (fun pair => do
        let key ← Write.element env g write (env.elementHeader none keys) none pair.1
        let value ← Write.element env g write (env.elementHeader none values) none pair.2
        return key ++ value) pairs)
      (Read.many (do
        let key ← Read.element env read (env.elementHeader none keys) none
        let value ← Read.element env read (env.elementHeader none values) none
        return (key, value)) pairs.length)
      fun f => pairs.map fun pair => (pair.1.rename f, pair.2.rename f) := by
  have run := Carries.concat (fun pair : Value × Value => [pair.1] ++ [pair.2])
    (fun f pair => (pair.1.rename f, pair.2.rename f)) fun pair (member : pair ∈ pairs) => by
      have key := Node.mem_contents_map.2 ⟨pair, member, .inl rfl⟩
      have value := Node.mem_contents_map.2 ⟨pair, member, .inr rfl⟩
      exact (transfers.marked region strict (simple _ key) fun h same => inside h (same ▸ key)).pair
        (transfers.marked region strict (simple _ value) fun h same => inside h (same ▸ value))
        Prod.mk
  unfold Write.element Read.element
  rw [env.refMode_dynamic tracked, env.refMode_dynamic tracked]
  exact run

/-- A field that admits every value and references comes back under its new name. -/
theorem Transfers.field {s : StructType} {r : Record} {field : Field}
    (admits : field.refMode = .tracking ∧ field.shape = .dynamic ∧
      field.hasTypeInfo s.isCompatible = true)
    (simple : (r.value field.name).Simple) (inside : ∀ h, r.value field.name = .handle h → R h) :
    Carries env.registry g R [r.value field.name] (Write.field env g write s r field)
      (Read.marked env read field.refMode (field.hasTypeInfo s.isCompatible) field.shape)
      fun f => (r.value field.name).rename f := by
  have notMissing : ¬((field.refMode = .none) && (r.value field.name).isNull) = true := by
    simp [admits.1]
  unfold Write.field
  dsimp only
  rw [if_neg notMissing, admits.1, admits.2.1, admits.2.2]
  exact transfers.marked region strict simple inside

/-- The fields of a record come back in a record that a reader fills. -/
theorem Transfers.fields {s : StructType} {r : Record} (fs : List Field)
    (names : (fs.map (·.name)).Nodup)
    (admits : ∀ field ∈ fs, field.refMode = .tracking ∧ field.shape = .dynamic ∧
      field.hasTypeInfo s.isCompatible = true)
    (simple : ∀ field ∈ fs, (r.value field.name).Simple)
    (inside : ∀ field ∈ fs, ∀ h, r.value field.name = .handle h → R h) (ws : WriteState)
    (nodup : ws.seen.handles.Nodup) (within : ∀ h ∈ ws.seen.handles, R h) :
    Ensures (Write.concat (Write.field env g write s r) fs) ws fun bytes ws' =>
      Grown env.registry g R ws.seen.handles ws'.seen.handles ∧
      (∀ field ∈ fs, ∀ h, r.value field.name = .handle h → h ∈ ws'.seen.handles) ∧
      ∀ f, Follows f ws'.seen.handles → ∀ (st : ReadState) (h : Handle) (r₀ : Record),
        Numbered ws.seen.handles.length st.graph st.slots → st.graph.node h = .record r₀ →
        h.index < st.graph.size →
        Runs (Read.each (Read.field env read s h) fs) st bytes fun _ st' =>
          Refilled env.registry g f h ws.seen.handles.length ws'.seen.handles st.graph st'.graph
            st'.slots ∧
          ∃ r₁, st'.graph.node h = .record r₁ ∧
            Record.Filled (fun field v => v = (r.value field.name).rename f) fs r₀ r₁ := by
  induction fs generalizing ws with
  | nil =>
    exact .pure ⟨.refl nodup within, fun _ member => absurd member List.not_mem_nil,
      fun f _ st h r₀ numbered held _ => .pure ⟨.refl numbered, r₀, held, .nil⟩⟩
  | cons field fs ih =>
    obtain ⟨fresh, names⟩ := List.nodup_cons.1 names
    obtain ⟨dynamic, admits⟩ := List.forall_mem_cons.1 admits
    obtain ⟨simple₁, simple⟩ := List.forall_mem_cons.1 simple
    obtain ⟨inside₁, inside⟩ := List.forall_mem_cons.1 inside
    refine (transfers.field region strict dynamic simple₁ inside₁ ws nodup within).bind ?_
    intro front ws₁ first
    refine (ih names admits simple inside ws₁ first.grown.nodup first.grown.within).bind ?_
    rintro back ws₂ ⟨grown, met, reads⟩
    refine .pure ⟨first.grown.trans grown, List.forall_mem_cons.2 ⟨fun h same => ?_, met⟩,
      fun f follows st h r₀ numbered held bound => ?_⟩
    · exact grown.begins.subset (first.met h (by simp [same]))
    · have old : h.index < ws.seen.handles.length := by rwa [← numbered.size]
      refine Runs.bind (Q := fun _ st₁ =>
        Refilled env.registry g f h ws.seen.handles.length ws₁.seen.handles st.graph st₁.graph
          st₁.slots ∧
        st₁.graph.node h = .record (r₀.put field.name ((r.value field.name).rename f))) ?_ ?_
      · apply Read.runs_field (r := r₀)
        apply (first.reads f (follows.of_begins grown.begins) st numbered).mono
        rintro v st₁ ⟨same, rebuilt⟩
        exact ⟨(rebuilt.ext.node h bound).trans held, Nat.lt_of_lt_of_le bound rebuilt.ext.size,
          fun g₂ _ put => ⟨rebuilt.put put old, same ▸ put.self⟩⟩
      · rintro _ st₁ ⟨refilled, held₁⟩
        have bound₁ := Nat.lt_of_lt_of_le bound refilled.altered.size
        apply (reads f follows st₁ h _ refilled.numbered held₁ bound₁).mono
        rintro _ st' ⟨refilled', r₁, held', filled⟩
        exact ⟨refilled.trans refilled' grown.begins old, r₁, held', .cons rfl fresh filled⟩

/-- A record comes back. -/
theorem Transfers.record {h : Handle} {r : Record} {s : StructType}
    (tracked : env.config.trackRef = true) (inside : R h) (node : g.node h = .record r)
    (found : env.registry.struct? r.typeName = some s) (ws : WriteState) {before : List Handle}
    (last : ws.seen.handles = before ++ [h]) (nodup : ws.seen.handles.Nodup)
    (within : ∀ k ∈ ws.seen.handles, R k) :
    Ensures (Write.record env g write s true r) ws fun bytes ws' =>
      Settled env.registry g R h (Read.record env read s true (some before.length)) before bytes
        ws'.seen.handles := by
  have built := strict.built.built found
  have portable := region.portable h inside
  have closed := region.closed h
  rw [node] at portable closed
  obtain ⟨s', id, found', ident, -, dynamic⟩ := portable.fits
  cases found.symm.trans found'
  have declared {v : Value} := Record.mem_declared_iff (v := v) found built.names
  have admits : ∀ field ∈ s.fields, field.refMode = .tracking ∧ field.shape = .dynamic ∧
      field.hasTypeInfo s.isCompatible = true := fun field member => by
    obtain ⟨shape, eligible⟩ := dynamic field member
    have resolved := built.resolved field member
    refine ⟨?_, shape, by rw [Field.hasTypeInfo, resolved.dynamic shape]; rfl⟩
    rw [Field.refMode, resolved.tracked, eligible, tracked]
    rfl
  have simple : ∀ field ∈ s.fields, (r.value field.name).Simple := fun field member => by
    cases null : (r.value field.name).isNull with
    | true =>
      have same : r.value field.name = .null := by
        cases value : r.value field.name <;> first | rfl | (rw [value] at null; cases null)
      rw [same]
      trivial
    | false => exact portable.contents _ (declared.2 ⟨null, field, member, rfl⟩)
  have reached : ∀ field ∈ s.fields, ∀ k, r.value field.name = .handle k → R k :=
    fun field member k same => closed k inside (declared.2 ⟨rfl, field, member, same⟩)
  refine Write.ensures_record strict.strategy ?_
  refine (transfers.fields region strict s.fields built.names admits simple reached ws nodup
    within).mono ?_
  rintro bytes ws' ⟨grown, met, reads⟩
  rw [last] at grown reads
  have place : ws'.seen.handles[before.length]? = some h :=
    getElem?_of_begins grown.begins (by simp)
  refine ⟨grown.begins, grown.node fun k holds => ?_, fun f follows st reserved => ?_⟩
  · rw [node] at holds
    obtain ⟨-, field, member, same⟩ := declared.1 holds
    exact met field member k same
  · apply Read.runs_record strict.strategy built.version
    rw [built.qualifiedName]
    have numbered := reserved.opened (.record (.ofType r.typeName))
    have bound : st.graph.size <
        (st.opened (.record (.ofType r.typeName)) (some before.length)).graph.size := by
      simp [ReadState.opened]
    apply (reads f follows _ ⟨st.graph.size⟩ _ (by simpa using numbered) (Graph.node_alloc_new ..)
      bound).mono
    rintro _ st' ⟨refilled, r₁, held, filled⟩
    refine ⟨congrArg (fun n => Value.handle ⟨n⟩) reserved.size, refilled.numbered,
      (Graph.Extends.alloc ..).alters refilled.altered (Nat.le_refl _), ?_⟩
    have copied := refilled.copied
    rw [List.length_append] at copied
    apply copied.node place
    rw [← reserved.size, held, node]
    exact Record.declared_of_filled found filled

include unlimited

/-- A list or a set comes back. -/
theorem Transfers.items {h : Handle} {vs : List Value} {kind : List Value → Node}
    (tracked : env.config.trackRef = true) (inside : R h)
    (node : (g.node h).declared env.registry = kind vs) (contents : (kind vs).contents = vs)
    (renamed : ∀ f, kind (vs.map (Value.rename f)) = (kind vs).mapValues (Value.rename f))
    (count : vs.length < 2 ^ 32) (ws : WriteState) {before : List Handle}
    (last : ws.seen.handles = before ++ [h]) (nodup : ws.seen.handles.Nodup)
    (within : ∀ k ∈ ws.seen.handles, R k) :
    Ensures (Write.items env g write .dynamic vs) ws fun bytes ws' =>
      Settled env.registry g R h (Read.items env read kind .dynamic (some before.length)) before
        bytes ws'.seen.handles := by
  have simple := (region.portable h inside).contents
  have closed : ∀ k, .handle k ∈ ((g.node h).declared env.registry).contents → R k :=
    fun k => region.closed h k inside
  rw [node, contents] at simple closed
  refine Write.ensures_items ((transfers.elements region strict simple closed tracked vs ws nodup
    within).mono fun bytes ws' carried => ?_)
  rw [last, ← contents, ← node] at carried
  refine carried.settled (kind []) kind (fun f => ?_) fun st Q run => ?_
  · rw [node, contents]
    exact renamed f
  · rw [node, contents] at run
    exact Read.runs_items count (unlimited ▸ SizeLimits.admits_unlimited _ _)
      Read.declared_elementHeader run

/-- A map comes back. -/
theorem Transfers.map {h : Handle} {pairs : List (Value × Value)}
    (tracked : env.config.trackRef = true) (inside : R h)
    (node : (g.node h).declared env.registry = .map pairs) (count : pairs.length < 2 ^ 32)
    (ws : WriteState) {before : List Handle} (last : ws.seen.handles = before ++ [h])
    (nodup : ws.seen.handles.Nodup) (within : ∀ k ∈ ws.seen.handles, R k) :
    Ensures (Write.entries env g write .dynamic pairs) ws fun bytes ws' =>
      Settled env.registry g R h (Read.entries env read .dynamic (some before.length)) before
        bytes ws'.seen.handles := by
  have simple := (region.portable h inside).contents
  have closed : ∀ k, .handle k ∈ ((g.node h).declared env.registry).contents → R k :=
    fun k => region.closed h k inside
  rw [node] at simple closed
  refine Write.ensures_entries ((transfers.entries region strict tracked simple closed
    _ _ ws nodup within).mono fun bytes ws' carried => ?_)
  rw [last, ← node] at carried
  refine carried.settled (.map []) .map (fun f => ?_) fun st Q run => ?_
  · rw [node]
    rfl
  · exact Read.runs_entries count (unlimited ▸ SizeLimits.admits_unlimited _ _)
      Read.declared_elementHeader Read.declared_elementHeader run

end

namespace Transfers

variable {env : Environment} {write : Option WritePayload} {read : Option ReadPayload}
  (region : Region env.registry g R) (strict : env.Strict)
  (unlimited : env.config.limits = .unlimited) (tracked : env.config.trackRef = true)
  (deeper : ∀ w, write = some w → ∃ r, read = some r ∧ Transfers env g R w r)

include unlimited

theorem layer_scalar {v : Value} {wire : WireType} (ws : WriteState)
    (scalar : v.handle? = none) (simple : v.Simple) (announced : env.Announces g v wire) :
    Ensures (Write.layer env g write wire .dynamic v) ws fun bytes ws' =>
      ws' = ws ∧ Read.Takes (Read.layer env read wire .dynamic none) bytes v := by
  cases announced with
  | record isRecord =>
    have node := Graph.nodeOf?_of_asRecord? isRecord
    rw [Graph.nodeOf?, scalar] at node
    cases node
  | enum => cases simple
  | unknownEnum => cases simple
  | @builtin _ t noRecord inferred =>
    have noContainer : t.isContainer = false := by
      cases v with
      | int n =>
        cases inferred
        cases n.kind <;> rfl
      | handle h => cases scalar
      | _ => cases inferred <;> rfl
    simp only [Write.layer, Read.layer, noContainer, Bool.false_eq_true, if_false]
    refine .lift fun bytes written => ⟨rfl, ?_⟩
    have admitted : v.Admitted env.config.limits := unlimited ▸ v.admitted_unlimited
    have takes := Read.takes_scalar written simple.short admitted
    rwa [Environment.Tells.restoredAs_of_inferType? inferred, simple.cut] at takes

include region strict tracked deeper

theorem layer_node {h : Handle} {wire : WireType} (ws : WriteState)
    {before : List Handle} (inside : R h) (announced : env.Announces g (.handle h) wire)
    (last : ws.seen.handles = before ++ [h]) (nodup : ws.seen.handles.Nodup)
    (within : ∀ k ∈ ws.seen.handles, R k) :
    Ensures (Write.layer env g write wire .dynamic (.handle h)) ws fun bytes ws' =>
      Settled env.registry g R h (Read.layer env read wire .dynamic (some before.length)) before
        bytes ws'.seen.handles := by
  have fits := (region.portable h inside).fits
  cases announced with
  | @record _ r s isRecord found =>
    have node : g.node h = .record r := Option.some.inj (Graph.nodeOf?_of_asRecord? isRecord)
    have same : ¬r.typeName ≠ s.qualifiedName :=
      not_not.2 (strict.built.built found).qualifiedName.symm
    have plain : s.isCompatible = false := (strict.built.built found).kind_eq
    simp only [Write.layer, Read.layer, isRecord, if_neg same, plain, Bool.not_false]
    apply Write.ensures_descend
    intro payload known
    obtain ⟨inner, rfl, transfers⟩ := deeper payload known
    exact transfers.record region strict tracked inside node found ws last nodup within
  | @builtin _ t noRecord inferred =>
    have container : t.isContainer = true := by
      simp only [Graph.inferType?] at inferred
      split at inferred <;> cases inferred <;> rfl
    simp only [Write.layer, Read.layer, container, if_true]
    refine Write.ensures_container (fun payload vs found node kind => ?_)
      (fun payload vs found node kind => ?_) (fun payload pairs found node kind => ?_)
    all_goals
      obtain ⟨inner, rfl, transfers⟩ := deeper payload found
      have node := Option.some.inj node
      subst kind
      rw [node] at fits
    · exact transfers.items region strict unlimited tracked inside (by rw [node]; rfl) rfl (fun _ => rfl) fits
        ws last nodup within
    · exact transfers.items region strict unlimited tracked inside (by rw [node]; rfl) rfl (fun _ => rfl) fits
        ws last nodup within
    · exact transfers.map region strict unlimited tracked inside (by rw [node]; rfl) fits ws last nodup within

theorem layer : Transfers env g R (Write.layer env g write) (Read.layer env read) :=
  ⟨fun _ _ ws scalar simple announced => layer_scalar unlimited ws scalar simple announced,
    fun _ _ ws _ inside announced last nodup within =>
      layer_node region strict unlimited tracked deeper ws inside announced last nodup within⟩

omit deeper

theorem payload (levels : Nat) :
    Transfers env g R (Write.payload env g levels) (Read.payload env levels) := by
  induction levels with
  | zero => exact layer region strict unlimited tracked nofun
  | succ levels ih =>
    exact layer region strict unlimited tracked fun w known => ⟨_, rfl, by cases known; exact ih⟩

end Transfers

end Graphwire
