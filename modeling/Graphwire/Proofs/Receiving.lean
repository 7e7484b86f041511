import Graphwire.Proofs.Channels
import Graphwire.Proofs.Matching

/-!
# Records that are received

A record of ours that is read by the fields of a peer gets for each of our fields what the peer sent
for it, or its default: the constant, else a copy of the template, else the first member of an
enumeration that may not be null, else nothing. What the peer sent for other fields is dropped.
-/

namespace Graphwire

set_option autoImplicit false

/-! ## Defaults -/

/-- Whether a graph has a copy of a template's nodes from an index on. -/
def Template.StandsAt (t : Template) (g : Graph) (offset : Nat) : Prop :=
  ∀ i, i < t.graph.size → g.node ⟨offset + i⟩ = (t.graph.node ⟨i⟩).mapValues (Value.shift offset)

theorem Template.standsAt_instantiate (t : Template) (g : Graph) :
    t.StandsAt (t.instantiate g).2 g.size := by
  intro i lt
  simp only [Graph.size] at lt
  simp [instantiate, Graph.node, Graph.size, lt]

theorem Template.extends_instantiate (t : Template) (g : Graph) :
    g.Extends (t.instantiate g).2 := by
  refine ⟨by simp [instantiate, Graph.size], fun h lt => ?_⟩
  simp only [Graph.size] at lt
  simp [instantiate, Graph.node, Array.getElem?_append_left lt]

theorem Template.size_instantiate (t : Template) (g : Graph) :
    (t.instantiate g).2.size = g.size + t.graph.size := by
  simp [instantiate, Graph.size]

/-- A copy stands in every graph that has the nodes. -/
theorem Template.StandsAt.agrees {t : Template} {g g' : Graph} {base offset : Nat}
    (stands : t.StandsAt g offset) (agrees : Graph.Agrees base g g') (above : base ≤ offset)
    (inside : offset + t.graph.size ≤ g.size) : t.StandsAt g' offset := by
  intro i lt
  rw [agrees ⟨offset + i⟩ (by dsimp only; omega) (by dsimp only; omega)]
  exact stands i lt

namespace Field

/-- What a field holds that is filled with its default. -/
inductive Defaults (own : Field) (g : Graph) : Option Value → Prop where
  | constant {c : Constant} {t : Template} {offset : Nat} (constant : own.constant = some c)
      (made : c.materialize own.shape = .ok t) (stands : t.StandsAt g offset) :
      Defaults own g (some (t.root.shift offset))
  | template {t : Template} {offset : Nat} (noConstant : own.constant = none)
      (template : own.template = some t) (stands : t.StandsAt g offset) :
      Defaults own g (some (t.root.shift offset))
  | member {name : String} (noConstant : own.constant = none) (noTemplate : own.template = none)
      (named : own.shape = .named name) (enum : own.type.isEnum = true)
      (required : own.nullable = false) : Defaults own g (some (.enum name 0))
  | unset (noConstant : own.constant = none) (noTemplate : own.template = none)
      (optional : ∀ name, own.shape = .named name → own.type.isEnum = true → own.nullable = true) :
      Defaults own g none

/-- What a field holds once a peer's record was received, given what the peer sent for it, if
anything: the value, nothing for a null that may be, and the default otherwise. -/
inductive Gets (own : Field) (g : Graph) : Option Tree → Option Value → Prop where
  | value {t : Tree} {v : Value} (present : t.isNull = false) (unfolds : g.Unfolds v t) :
      Gets own g (some t) (some v)
  | null {t : Tree} (absent : t.isNull = true) (nullable : own.nullable = true) :
      Gets own g (some t) none
  | refused {t : Tree} {got : Option Value} (absent : t.isNull = true)
      (required : own.nullable = false) (default : own.Defaults g got) : Gets own g (some t) got
  | missing {got : Option Value} (default : own.Defaults g got) : Gets own g none got

/-- The value of a missing field is the default. -/
theorem defaults_of_missingValue {own : Field} {g : Graph} {d : Option Template}
    (h : own.missingValue = .ok d) :
    (∀ t, d = some t → ∀ offset, t.StandsAt g offset → own.Defaults g (some (t.root.shift offset))) ∧
      (d = none → own.Defaults g none) := by
  unfold missingValue at h
  split at h
  · rename_i c constant
    cases made : c.materialize own.shape with
    | error e => rw [made] at h; cases h
    | ok t =>
      rw [made] at h
      cases h
      exact ⟨fun t' same offset stands => by cases same; exact .constant constant made stands,
        fun none => by cases none⟩
  · rename_i t noConstant template
    cases h
    exact ⟨fun t' same offset stands => by cases same; exact .template noConstant template stands,
      fun none => by cases none⟩
  · rename_i noConstant noTemplate
    split at h
    · rename_i name named
      cases h
      by_cases member : (own.type.isEnum && !own.nullable) = true
      · rw [if_pos member]
        obtain ⟨enum, required⟩ := Bool.and_eq_true_iff.1 member
        refine ⟨fun t same offset stands => ?_, fun none => by cases none⟩
        cases same
        exact .member noConstant noTemplate named enum (by simpa using required)
      · rw [if_neg member]
        refine ⟨(fun _ same => by cases same), fun _ => .unset noConstant noTemplate fun _ _ enum => ?_⟩
        simpa [enum] using member
    · rename_i other
      cases h
      exact ⟨(fun _ same => by cases same),
        fun _ => .unset noConstant noTemplate fun name named => absurd named (other name)⟩

end Field

/-! ## Records -/

/-- What becomes of a record when fields are received. -/
structure Record.Received (g : Graph) (slots : List (Field × Option Tree)) (r r' : Record) : Prop where
  typeName : r'.typeName = r.typeName
  other : ∀ name, name ∉ slots.map (·.1.name) → r'.get? name = r.get? name
  field : ∀ slot ∈ slots, r.get? slot.1.name = none → slot.1.Gets g slot.2 (r'.get? slot.1.name)

namespace Record.Received

variable {g : Graph} {slots : List (Field × Option Tree)} {r r' r'' : Record}

theorem nil : Received g [] r r :=
  ⟨rfl, fun _ _ => rfl, fun _ member => absurd member List.not_mem_nil⟩

theorem set {own : Field} {sent : Option Tree} {v : Value} (gets : own.Gets g sent (some v)) :
    Received g [(own, sent)] r (r.set own.name v) := by
  refine ⟨rfl, fun name absent => ?_, fun slot member _ => ?_⟩
  · rw [get?_set, if_neg fun same => absent (List.mem_singleton.2 same)]
  · cases List.mem_singleton.1 member
    rw [get?_set, if_pos rfl]
    exact gets

theorem unset {own : Field} {sent : Option Tree} (gets : own.Gets g sent none) :
    Received g [(own, sent)] r r := by
  refine ⟨rfl, fun _ _ => rfl, fun slot member free => ?_⟩
  cases List.mem_singleton.1 member
  rw [free]
  exact gets

theorem append {more : List (Field × Option Tree)} (first : Received g slots r r')
    (second : Received g more r' r'') (names : ((slots ++ more).map (·.1.name)).Nodup) :
    Received g (slots ++ more) r r'' := by
  rw [List.map_append] at names
  obtain ⟨-, -, apart⟩ := List.nodup_append.1 names
  have mine : ∀ slot ∈ slots, slot.1.name ∉ more.map (·.1.name) := fun slot member also =>
    apart _ (List.mem_map_of_mem member) _ also rfl
  have theirs : ∀ slot ∈ more, slot.1.name ∉ slots.map (·.1.name) := fun slot member also =>
    apart _ also _ (List.mem_map_of_mem member) rfl
  refine ⟨second.typeName.trans first.typeName, fun name absent => ?_, fun slot member free => ?_⟩
  · rw [List.map_append, List.mem_append, not_or] at absent
    rw [second.other name absent.2, first.other name absent.1]
  · rcases List.mem_append.1 member with now | later
    · rw [second.other _ (mine slot now)]
      exact first.field slot now free
    · refine second.field slot later ?_
      rw [first.other _ (theirs slot later)]
      exact free

end Record.Received

/-! ## Reading -/

namespace Read

variable {sync : WriteState → ReadState → Prop} {ws ws₁ : WriteState}

/-- Setting a field of the record of a handle. -/
theorem edits_setField (definitional : Definitional sync) {own : Field} {sent : Option Tree}
    {v : Value} {st : ReadState} {h : Handle} {r : Record} (step : sync ws st)
    (held : st.graph.node h = .record r) (bound : h.index < st.graph.size) {base : Graph}
    (ext : base.Extends st.graph) (below : h.index < base.size)
    (gets : ∀ g, Graph.Agrees base.size st.graph g → own.Gets g sent (some v)) :
    Runs (setField h own.name v) st [] fun _ st' =>
      sync ws st' ∧ base.Alters st'.graph h ∧ ∃ r', st'.graph.node h = .record r' ∧
        ∀ g, Graph.Agrees base.size st'.graph g → Record.Received g [(own, sent)] r r' := by
  have put : st.graph.Replaces (st.graph.withField h own.name v) h (.record (r.set own.name v)) := by
    simp only [Graph.withField, held]
    exact st.graph.replaces_set _ bound
  have set : ∀ reader, setField h own.name v { st with reader } = .ok ()
      { ({ st with graph := st.graph.withField h own.name v } : ReadState) with reader } :=
    fun _ => setField_apply h own.name v _
  refine .silent set ?_
  refine ⟨definitional _ _ _ step rfl rfl, ext.replaced put, _, put.self,
    fun g agrees => .set (gets g fun k le lt => ?_)⟩
  have ne : k ≠ h := fun same => by subst same; omega
  exact (agrees k le (put.size ▸ lt)).trans (put.other k ne)

/-- A field that is left out gets its default. -/
theorem edits_fillMissing (ws : WriteState) (sent : Option Tree) (definitional : Definitional sync)
    {own : Field} (default : ∃ d, own.missingValue = .ok d)
    (gets : ∀ g got, own.Defaults g got → own.Gets g sent got) :
    Edits sync ws ws (fun h => fillMissing h own) [] fun g => Record.Received g [(own, sent)] := by
  intro st h r step held bound
  obtain ⟨d, made⟩ := default
  unfold fillMissing
  rw [made]
  cases d with
  | none =>
    have left (g : Graph) := (Field.defaults_of_missingValue (g := g) made).2 rfl
    exact .pure ⟨step, .refl _ _, r, held, fun g _ => .unset (gets g _ (left g))⟩
  | some t =>
    let copied : ReadState := { st with
      graph := (t.instantiate st.graph).2, filled := st.filled ++ [⟨h, own.name, t, st.graph.size⟩] }
    have ext := t.extends_instantiate st.graph
    have size := t.size_instantiate st.graph
    have stands := t.standsAt_instantiate st.graph
    have copiedStep : sync ws copied := definitional ws st copied step rfl rfl
    have run := edits_setField (v := t.root.shift st.graph.size) definitional copiedStep
      ((ext.node h bound).trans held) (Nat.lt_of_lt_of_le bound ext.size) ext bound
      fun g agrees => gets g _ ((Field.defaults_of_missingValue made).1 t rfl _
        (stands.agrees agrees (Nat.le_refl _) (Nat.le_of_eq size.symm)))
    exact fun p rest => run p rest

/-- What is read for a field of a peer is kept under its counterpart among our fields. -/
theorem edits_peerField {env : Environment} {inner : ReadPayload} {p : PeerStruct} {s : StructType}
    {f : Field} {t : Tree} {bytes : List UInt8} (definitional : Definitional sync)
    (own : p.own = some s)
    (defaults : ∀ own ∈ s.fields, ∃ d, own.missingValue = .ok d)
    (hv : Builds sync ws ws₁
      (marked env inner (s.peerField f).refMode (s.peerField f).typed (s.peerField f).shape) bytes
      fun g v => g.Unfolds v t) :
    Edits sync ws ws₁ (fun h => peerField env inner p h (s.peerField f)) bytes fun g =>
      Record.Received g ((s.counterpart? f).map (·, some t)).toList := by
  intro st h r step held bound
  have target : ((s.peerField f).own.bind fun i => p.own.bind fun s => s.fields[i]?) =
      s.counterpart? f := by
    rw [own]
    rfl
  apply (hv st step).then
  rintro v st₁ ⟨step₁, ext, built⟩
  have null := (built st₁.graph fun _ _ _ => rfl).isNull
  have held₁ := (ext.node h bound).trans held
  have bound₁ := Nat.lt_of_lt_of_le bound ext.size
  unfold keepField
  rw [target, own]
  cases known : s.counterpart? f with
  | none =>
    let noted : ReadState := { st₁ with dropped := st₁.dropped + 1 }
    have step₂ := definitional ws₁ st₁ noted step₁ rfl rfl
    exact .silent (fun _ => rfl) ⟨step₂, ext.altered h, r, held₁, fun _ _ => .nil⟩
  | some own' =>
    have member : own' ∈ s.fields := by
      obtain ⟨i, -, at'⟩ := Option.bind_eq_some_iff.1 known
      exact List.mem_of_getElem? at'
    dsimp only
    split
    · rename_i absent
      rw [absent] at null
      let noted : ReadState := { st₁ with nulls := st₁.nulls ++ [(h, own'.name)] }
      have step₁ := definitional ws₁ st₁ noted step₁ rfl rfl
      have run (reader : Reader) : noteNull h own'.name { st₁ with reader } =
          .ok () { noted with reader } := rfl
      refine .step run ?_
      split
      · rename_i nullable
        exact .pure ⟨step₁, ext.altered h, r, held₁, fun g _ => .unset (.null null nullable)⟩
      · rename_i required
        have filled := edits_fillMissing ws₁ (some t) definitional
          (defaults own' member) fun g got default =>
          .refused null (by simpa using required) default
        apply (filled noted h r step₁ held₁ bound₁).mono
        rintro _ st₂ ⟨step₂, altered, r', held₂, received⟩
        exact ⟨step₂, (ext.altered h).trans altered, r', held₂, fun g agrees =>
          received g fun k le lt => agrees k (Nat.le_trans ext.size le) lt⟩
    · rename_i present
      exact edits_setField definitional step₁ held₁ bound₁ ext bound fun g agrees =>
        .value (null.trans (by simpa using present)) (built g agrees)

/-- What is read for a field of ours is kept, unless it is a null. -/
theorem edits_ownField {env : Environment} {inner : ReadPayload} {s : StructType} {own : Field}
    {t : Tree} {bytes : List UInt8} (definitional : Definitional sync)
    (required : own.nullable = false → t.isNull = false)
    (hv : Builds sync ws ws₁
      (marked env inner own.refMode (own.hasTypeInfo s.isCompatible) own.shape) bytes
      fun g v => g.Unfolds v t) :
    Edits sync ws ws₁ (fun h => field env inner s h own) bytes fun g =>
      Record.Received g [(own, some t)] := by
  intro st h r step held bound
  apply (hv.edits_field definitional st h r step held bound).mono
  rintro _ st' ⟨step', altered, r', held', told⟩
  refine ⟨step', altered, r', held', fun g agrees => ?_⟩
  obtain ⟨w, unfolds, rfl⟩ := told g agrees
  have null := unfolds.isNull
  unfold Record.put
  split
  · rename_i absent
    rw [absent] at null
    refine .unset (.null null ?_)
    cases nullable : own.nullable with
    | true => rfl
    | false => rw [required nullable] at null; cases null
  · rename_i present
    exact .set (.value (null.trans (by simpa using present)) unfolds)

/-! ## Fields in a row -/

/-- Fields that are received each on its own are received in a row. -/
theorem ensures_edits {α β : Type} {write : α → Write (List UInt8)} {one : β → Handle → Read Unit}
    {slots : α → List (Field × Option Tree)} {S : α → β → Prop} {xs : List α} {ys : List β}
    (related : List.Forall₂ S xs ys)
    (step : ∀ x y, x ∈ xs → S x y → ∀ ws, Write.Ensures (write x) ws fun bytes ws' =>
      Edits sync ws ws' (one y) bytes fun g => Record.Received g (slots x))
    (names : ((xs.flatMap slots).map (·.1.name)).Nodup) (ws : WriteState) :
    Write.Ensures (Write.concat write xs) ws fun bytes ws' =>
      Edits sync ws ws' (fun h => each (one · h) ys) bytes fun g =>
        Record.Received g (xs.flatMap slots) := by
  induction related generalizing ws with
  | nil => exact .pure (.nil fun _ _ => .nil)
  | @cons x y xs ys first _ ih =>
    rw [List.flatMap_cons] at names ⊢
    refine (step x y List.mem_cons_self first ws).bind ?_
    intro front ws₁ here
    have others := ih (fun x y member => step x y (List.mem_cons_of_mem _ member))
      (List.Nodup.of_append_right (List.map_append ▸ names)) ws₁
    refine others.bind fun back ws₂ there => .pure (here.bind there ?_)
    exact fun g r r₁ r₂ first second => first.append second names

/-- Fields that are left out get their defaults. -/
theorem edits_missing (ws : WriteState) (definitional : Definitional sync) {owns : List Field}
    (default : ∀ own ∈ owns, ∃ d, own.missingValue = .ok d) (names : (owns.map (·.name)).Nodup) :
    Edits sync ws ws (fun h => each (fillMissing h) owns) [] fun g =>
      Record.Received g (owns.map (·, none)) := by
  induction owns with
  | nil => exact .nil fun _ _ => .nil
  | cons own owns ih =>
    obtain ⟨defaultHere, default⟩ := List.forall_mem_cons.1 default
    have here := edits_fillMissing ws none definitional defaultHere
      fun _ _ default => .missing default
    refine here.bind (ih default (List.nodup_cons.1 names).2) fun g r r₁ r₂ first second => ?_
    refine first.append second ?_
    simpa [Function.comp_def] using names

/-- A record of a peer gets what was sent for its fields, and the defaults of the others. -/
theorem builds_reconciled {env : Environment} {inner : ReadPayload} {p : PeerStruct}
    {s : StructType} {sent : List (Field × Option Tree)} {left : List Field} {bytes : List UInt8}
    (definitional : Definitional sync) (own : p.own = some s)
    (fields : Edits sync ws ws₁ (fun h => each (peerField env inner p h) p.fields) bytes fun g =>
      Record.Received g sent)
    (missing : p.missing.filterMap (s.fields[·]?) = left)
    (default : ∀ own ∈ s.fields, ∃ d, own.missingValue = .ok d)
    (names : ((sent ++ left.map (·, none)).map fun slot : Field × Option Tree => slot.1.name).Nodup) :
    Builds sync ws ws₁ (reconciled env inner p none) bytes fun g v => ∃ k r, v = .handle k ∧
      g.node k = .record r ∧
        Record.Received g (sent ++ left.map (·, none)) (.ofType p.typeName) r := by
  intro st step
  have known : ∀ own ∈ left, ∃ d, own.missingValue = .ok d := by
    intro own member
    obtain ⟨i, -, at'⟩ := List.mem_filterMap.1 (missing ▸ member)
    exact default own (List.mem_of_getElem? at')
  have leftNames : (left.map (·.name)).Nodup := by
    have names := List.Nodup.of_append_right (List.map_append ▸ names)
    rwa [List.map_map] at names
  have filled := edits_missing ws₁ definitional known leftNames
  have whole := fields.bind filled (fun g r r₁ r₂ first second => first.append second names)
  rw [List.append_nil] at whole
  unfold reconciled newRecord
  rw [own]
  simp only [bind_assoc, pure_bind, Option.elim_some, missing]
  refine .opened ?_
  rw [← bind_assoc]
  refine (whole.opened definitional step).then ?_
  rintro _ st' ⟨step', ext, r, told⟩
  exact .pure ⟨step', ext, fun g agrees => ⟨_, r, rfl, told g agrees⟩⟩

end Read

end Graphwire
