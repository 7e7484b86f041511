import Graphwire.Proofs.Refusals
import Graphwire.Proofs.Tables

/-!
# Nodes that come back

A reader runs on bytes when it succeeds wherever they stand in the input and stops right after them.
The rules for lists, sets, maps and records reduce a node to what it holds: the contents are read
from a state in which the node was added, empty, and stands behind its reference number already.
-/

namespace Graphwire

set_option autoImplicit false

namespace Graph

/-- Whether a graph has the nodes of another one, and possibly more. -/
structure Extends (g g' : Graph) : Prop where
  size : g.size ≤ g'.size
  node : ∀ h, h.index < g.size → g'.node h = g.node h

theorem Extends.refl (g : Graph) : g.Extends g := ⟨Nat.le_refl _, fun _ _ => rfl⟩

theorem Extends.trans {g₁ g₂ g₃ : Graph} (h₁ : g₁.Extends g₂) (h₂ : g₂.Extends g₃) :
    g₁.Extends g₃ :=
  ⟨Nat.le_trans h₁.size h₂.size,
    fun h lt => (h₂.node h (Nat.lt_of_lt_of_le lt h₁.size)).trans (h₁.node h lt)⟩

theorem Extends.alloc (g : Graph) (n : Node) : g.Extends (g.alloc n).2 :=
  ⟨by simp, fun h lt => g.node_alloc_old n h lt⟩

/-- A node that the smaller graph lacks can be replaced. -/
theorem Extends.set {g g' : Graph} (h : g.Extends g') {k : Handle} (new : g.size ≤ k.index)
    (n : Node) : g.Extends (g'.set k n) := by
  refine ⟨by simpa using h.size, fun j lt => ?_⟩
  have ne : k ≠ j := fun e => by subst e; omega
  exact (g'.node_set_other k j n ne).trans (h.node j lt)

theorem set_alloc (g : Graph) (n : Node) : (g.alloc n).2.set ⟨g.size⟩ n = (g.alloc n).2 := by
  simp only [alloc, set, size, Graph.mk.injEq]
  apply Array.ext (by simp)
  intro i _ _
  simp [Array.getElem_push]
  grind

/-- Whether a graph has the nodes of another one except that of a handle, and possibly more. -/
structure Alters (g g' : Graph) (h : Handle) : Prop where
  size : g.size ≤ g'.size
  other : ∀ k, k ≠ h → k.index < g.size → g'.node k = g.node k

theorem Alters.refl (g : Graph) (h : Handle) : g.Alters g h := ⟨Nat.le_refl _, fun _ _ _ => rfl⟩

theorem Alters.trans {g₁ g₂ g₃ : Graph} {h : Handle} (h₁ : g₁.Alters g₂ h) (h₂ : g₂.Alters g₃ h) :
    g₁.Alters g₃ h :=
  ⟨Nat.le_trans h₁.size h₂.size, fun k ne lt =>
    (h₂.other k ne (Nat.lt_of_lt_of_le lt h₁.size)).trans (h₁.other k ne lt)⟩

theorem Extends.altered {g g' : Graph} (ext : g.Extends g') (h : Handle) : g.Alters g' h :=
  ⟨ext.size, fun k _ lt => ext.node k lt⟩

/-- A node that was added is altered. -/
theorem Extends.alters {g₁ g₂ g₃ : Graph} {h : Handle} (h₁ : g₁.Extends g₂) (h₂ : g₂.Alters g₃ h)
    (new : g₁.size ≤ h.index) : g₁.Extends g₃ := by
  refine ⟨Nat.le_trans h₁.size h₂.size, fun k lt => ?_⟩
  have ne : k ≠ h := fun e => by subst e; omega
  exact (h₂.other k ne (Nat.lt_of_lt_of_le lt h₁.size)).trans (h₁.node k lt)

/-- Whether a graph differs from another one only in the node of a handle. -/
structure Replaces (g g' : Graph) (h : Handle) (n : Node) : Prop where
  size : g'.size = g.size
  self : g'.node h = n
  other : ∀ k, k ≠ h → g'.node k = g.node k

theorem Extends.replaced {g₁ g₂ g₃ : Graph} {h : Handle} {n : Node} (h₁ : g₁.Extends g₂)
    (h₂ : g₂.Replaces g₃ h n) : g₁.Alters g₃ h :=
  ⟨h₂.size ▸ h₁.size, fun k ne lt => (h₂.other k ne).trans (h₁.node k lt)⟩

theorem replaces_set (g : Graph) {h : Handle} (n : Node) (bound : h.index < g.size) :
    g.Replaces (g.set h n) h n :=
  ⟨by simp, g.node_set_self h n bound, fun k ne => g.node_set_other h k n (Ne.symm ne)⟩

end Graph

/-- The state after a node was added and put behind a reference number, if there is one. -/
def ReadState.opened (st : ReadState) (n : Node) (slot : Option Nat) : ReadState :=
  { st with
    graph := (st.graph.alloc n).2
    slots := slot.elim st.slots fun number => st.slots.fill number (.handle ⟨st.graph.size⟩) }

namespace Read

variable {α β : Type} {st : ReadState} {Q : α → ReadState → Prop} {R : β → ReadState → Prop}

/-! ## Markers and headers -/

theorem takes_refFlag (f : RefFlag) : Takes (decode Decode.refFlag) f.encode f := by
  refine .decode ?_
  have bounds : -3 ≤ f.code ∧ f.code ≤ 0 := by cases f <;> decide
  refine (Decode.yields_signed (by omega) (by omega)).then ?_
  rw [RefFlag.ofCode?_code]
  exact .pure f

/-- A header is read back where it fits the shape of the elements. -/
theorem takes_elementHeader {header : ElementHeader} {part : Option Shape}
    (known : header.declared = true → part.all (· = .dynamic) = false) :
    Takes (elementHeader part) header.encode header := by
  have byte : header.toNat.toUInt8.toNat = header.toNat := by
    rcases header with ⟨_ | _, _ | _, _ | _⟩ <;> rfl
  have octet := Decode.yields_octet header.toNat.toUInt8
  rw [byte] at octet
  refine (Takes.decode octet).then ?_
  rw [ElementHeader.ofNat?_toNat]
  have fits : ¬(header.declared && part.all (· = .dynamic)) = true := by
    cases declared : header.declared with
    | false => simp
    | true => simp [known declared]
  dsimp only
  rw [if_neg fits]
  exact .pure header

/-- Elements are declared by a shape that does not admit everything. -/
theorem declared_elementHeader {env : Environment} {part : Option Shape} {elements : List Value}
    (h : (env.elementHeader part elements).declared = true) :
    part.all (· = .dynamic) = false := by
  cases part with
  | none => cases h
  | some shape =>
    cases shape with
    | dynamic => cases h
    | _ => simp

/-! ## Marked values -/

section

variable {sure : Prop} {st : ReadState} {env : Environment} {inner : ReadPayload} {mode : RefMode}
  {hasType : Bool} {shape : Shape} {bytes : List UInt8} {Q : Value → ReadState → Prop}

theorem takes_marked_null (some : mode ≠ .none) :
    Takes (marked env inner mode hasType shape) RefFlag.null.encode .null := by
  unfold marked
  rw [if_neg some]
  exact (takes_refFlag .null).then (.pure _)

theorem runsIf_marked_notNull (some : mode ≠ .none)
    (h : RunsIf sure (typed env inner hasType shape none) st bytes Q) :
    RunsIf sure (marked env inner mode hasType shape) st (RefFlag.notNull.encode ++ bytes) Q := by
  unfold marked
  rw [if_neg some]
  exact .after (takes_refFlag .notNull) h

/-- A reference stands for the value behind its number. -/
theorem runsIf_marked_ref {number : Nat} {v : Value} (small : number < 2 ^ 32)
    (found : st.slots.values[number]? = .some (.some v)) (hq : Q v st) :
    RunsIf sure (marked env inner .tracking hasType shape) st
      (RefFlag.ref.encode ++ Encode.varuint32 number) Q := by
  unfold marked
  rw [if_neg (by decide)]
  refine .after (takes_refFlag .ref) ?_
  rw [← List.append_nil (Encode.varuint32 number)]
  refine .after (.decode (Decode.yields_varuint32 small)) (.silent (fun r => ?_) hq)
  simp only [resolve]
  show check (st.slots.resolve number) _ = _
  rw [Slots.resolve, found]
  rfl

/-- A new node gets the next number, under which its value is put at the end once more. -/
theorem runsIf_marked_newRef
    (h : RunsIf sure (typed env inner hasType shape (some st.slots.reserve.1))
      { st with slots := st.slots.reserve.2 } bytes
      fun v st' => Q v { st' with slots := st'.slots.fill st.slots.reserve.1 v }) :
    RunsIf sure (marked env inner .tracking hasType shape) st (RefFlag.newRef.encode ++ bytes) Q := by
  unfold marked
  rw [if_neg (by decide)]
  exact .after (takes_refFlag .newRef) (.step (fun _ => rfl) (h.then fun v st' hq =>
    .silent (fun _ => rfl) hq))

theorem runs_marked_notNull (some : mode ≠ .none)
    (h : Runs (typed env inner hasType shape none) st bytes Q) :
    Runs (marked env inner mode hasType shape) st (RefFlag.notNull.encode ++ bytes) Q :=
  (runsIf_marked_notNull some h.runsIf).runs trivial

theorem runs_marked_ref {number : Nat} {v : Value} (small : number < 2 ^ 32)
    (found : st.slots.values[number]? = .some (.some v)) (hq : Q v st) :
    Runs (marked env inner .tracking hasType shape) st
      (RefFlag.ref.encode ++ Encode.varuint32 number) Q :=
  (runsIf_marked_ref small found hq).runs trivial

theorem runs_marked_newRef
    (h : Runs (typed env inner hasType shape (some st.slots.reserve.1))
      { st with slots := st.slots.reserve.2 } bytes
      fun v st' => Q v { st' with slots := st'.slots.fill st.slots.reserve.1 v }) :
    Runs (marked env inner .tracking hasType shape) st (RefFlag.newRef.encode ++ bytes) Q :=
  (runsIf_marked_newRef h.runsIf).runs trivial

end

/-! ## Nodes -/

variable {sure : Prop} {env : Environment} {inner : ReadPayload} {shape : Shape} {slot : Option Nat}

theorem alloc_publish (st : ReadState) (n : Node) (slot : Option Nat) {f : Handle → Read β} :
    (do let h ← alloc n; publish slot (.handle h); f h) st = f ⟨st.graph.size⟩ (st.opened n slot) := by
  cases slot <;> rfl

/-- First a node is added and put behind its reference number. -/
theorem RunsIf.opened {n : Node} {f : Handle → Read β} {bytes : List UInt8}
    (h : RunsIf sure (f ⟨st.graph.size⟩) (st.opened n slot) bytes R) :
    RunsIf sure (do let h ← alloc n; publish slot (.handle h); f h) st bytes R := by
  intro p rest
  rw [alloc_publish]
  exact h p rest

theorem Runs.opened {n : Node} {f : Handle → Read β} {bytes : List UInt8}
    (h : Runs (f ⟨st.graph.size⟩) (st.opened n slot) bytes R) :
    Runs (do let h ← alloc n; publish slot (.handle h); f h) st bytes R :=
  (RunsIf.opened h.runsIf).runs trivial

/-- A node without contents is read once it was added. -/
theorem runsIf_nothing {a : α} (full : α → Node) {bytes : List UInt8}
    {Q : Value → ReadState → Prop}
    (h : RunsIf sure (pure a) (st.opened (full a) slot) bytes fun b st' =>
      Q (.handle ⟨st.graph.size⟩) { st' with graph := st'.graph.set ⟨st.graph.size⟩ (full b) }) :
    RunsIf sure (pure (.handle ⟨st.graph.size⟩)) (st.opened (full a) slot) [] Q := by
  intro p rest
  rcases h p rest with ⟨b, st', p', run, hq⟩ | ⟨-, e, s, run⟩
  · refine .inl ⟨_, _, p, ?_, hq⟩
    injection run with same moved
    subst same
    have graph : (st.opened (full a) slot).graph = st'.graph := by
      injection moved
    have closed : st'.graph.set ⟨st.graph.size⟩ (full a) = st'.graph := by
      rw [← graph]
      exact Graph.set_alloc ..
    rw [closed]
    exact congrArg (fun s : ReadState =>
      EStateM.Result.ok (Value.handle ⟨st.graph.size⟩) { s with reader := ⟨p, rest⟩ }) moved
  · cases run

end Read

/-- A number of things, and unless there are none what stands before them and the things. -/
def Encode.counted (n : Nat) (front bytes : List UInt8) : List UInt8 :=
  varuint32 n ++ if n = 0 then [] else front ++ bytes

namespace Read

variable {sure : Prop} {st : ReadState} {env : Environment} {inner : ReadPayload} {shape : Shape}
  {slot : Option Nat} {bytes : List UInt8} {Q : Value → ReadState → Prop}

theorem runsIf_items {node : List Value → Node} {n : Nat} {header : ElementHeader}
    (small : n < 2 ^ 32) (admitted : env.config.limits.Admits .collection n)
    (known : header.declared = true → shape.parts.1.all (· = .dynamic) = false)
    (h : RunsIf sure (many (element env inner header shape.parts.1) n) (st.opened (node []) slot) bytes
      fun vs st' => Q (.handle ⟨st.graph.size⟩)
        { st' with graph := st'.graph.set ⟨st.graph.size⟩ (node vs) }) :
    RunsIf sure (items env inner node shape slot) st (Encode.counted n header.encode bytes) Q := by
  unfold items Encode.counted
  refine .after (.decode (Decode.yields_varuint32 small)) ?_
  refine .step (fun _ => by rw [SizeLimits.check_of_admits admitted]; rfl) (.opened ?_)
  by_cases none : n = 0
  · subst none
    rw [if_pos rfl, if_pos rfl]
    exact runsIf_nothing node h
  · rw [if_neg none, if_neg none]
    refine .after (takes_elementHeader known) (h.then fun _ _ => .replaced)

theorem runsIf_entries {n : Nat} {keyHeader valueHeader : ElementHeader}
    (small : n < 2 ^ 32) (admitted : env.config.limits.Admits .map n)
    (keysKnown : keyHeader.declared = true → shape.parts.1.all (· = .dynamic) = false)
    (valuesKnown : valueHeader.declared = true → shape.parts.2.all (· = .dynamic) = false)
    (h : RunsIf sure
      (many (do
        let key ← element env inner keyHeader shape.parts.1
        let value ← element env inner valueHeader shape.parts.2
        return (key, value)) n)
      (st.opened (.map []) slot) bytes
      fun pairs st' => Q (.handle ⟨st.graph.size⟩)
        { st' with graph := st'.graph.set ⟨st.graph.size⟩ (.map pairs) }) :
    RunsIf sure (entries env inner shape slot) st
      (Encode.counted n (keyHeader.encode ++ valueHeader.encode) bytes) Q := by
  unfold entries Encode.counted
  refine .after (.decode (Decode.yields_varuint32 small)) ?_
  refine .step (fun _ => by rw [SizeLimits.check_of_admits admitted]; rfl) (.opened ?_)
  by_cases none : n = 0
  · subst none
    rw [if_pos rfl, if_pos rfl]
    exact runsIf_nothing .map h
  · rw [if_neg none, if_neg none, List.append_assoc]
    refine .after (takes_elementHeader keysKnown) ?_
    refine .after (takes_elementHeader valuesKnown) (h.then fun _ _ => .replaced)

theorem runsIf_record {s : StructType} {strict : Bool}
    (strategy : env.config.strategy = .interpreted)
    (version : -2 ^ 31 ≤ s.version ∧ s.version < 2 ^ 31)
    (h : RunsIf sure (each (field env inner s ⟨st.graph.size⟩) s.fields)
      (st.opened (.record (.ofType s.qualifiedName)) slot) bytes
      fun _ => Q (.handle ⟨st.graph.size⟩)) :
    RunsIf sure (record env inner s strict slot) st
      ((if strict then Encode.signed 4 s.version else []) ++ bytes) Q := by
  unfold record fields newRecord
  rw [strategy]
  cases strict with
  | true =>
    simp only [if_true, bind_assoc, pure_bind]
    refine .after (.decode (Decode.yields_signed (by omega) (by omega))) ?_
    refine .step (fun _ => by rw [checkVersion, if_pos rfl]; rfl) (.opened ?_)
    exact h.then fun _ _ => .pure
  | false =>
    simp only [Bool.false_eq_true, if_false, bind_assoc, pure_bind, List.nil_append]
    exact .opened (h.then fun _ _ => .pure)

theorem runs_items {node : List Value → Node} {n : Nat} {header : ElementHeader}
    (small : n < 2 ^ 32) (admitted : env.config.limits.Admits .collection n)
    (known : header.declared = true → shape.parts.1.all (· = .dynamic) = false)
    (h : Runs (many (element env inner header shape.parts.1) n) (st.opened (node []) slot) bytes
      fun vs st' => Q (.handle ⟨st.graph.size⟩)
        { st' with graph := st'.graph.set ⟨st.graph.size⟩ (node vs) }) :
    Runs (items env inner node shape slot) st (Encode.counted n header.encode bytes) Q :=
  (runsIf_items small admitted known h.runsIf).runs trivial

theorem runs_entries {n : Nat} {keyHeader valueHeader : ElementHeader}
    (small : n < 2 ^ 32) (admitted : env.config.limits.Admits .map n)
    (keysKnown : keyHeader.declared = true → shape.parts.1.all (· = .dynamic) = false)
    (valuesKnown : valueHeader.declared = true → shape.parts.2.all (· = .dynamic) = false)
    (h : Runs
      (many (do
        let key ← element env inner keyHeader shape.parts.1
        let value ← element env inner valueHeader shape.parts.2
        return (key, value)) n)
      (st.opened (.map []) slot) bytes
      fun pairs st' => Q (.handle ⟨st.graph.size⟩)
        { st' with graph := st'.graph.set ⟨st.graph.size⟩ (.map pairs) }) :
    Runs (entries env inner shape slot) st
      (Encode.counted n (keyHeader.encode ++ valueHeader.encode) bytes) Q :=
  (runsIf_entries small admitted keysKnown valuesKnown h.runsIf).runs trivial

theorem runs_record {s : StructType} {strict : Bool}
    (strategy : env.config.strategy = .interpreted)
    (version : -2 ^ 31 ≤ s.version ∧ s.version < 2 ^ 31)
    (h : Runs (each (field env inner s ⟨st.graph.size⟩) s.fields)
      (st.opened (.record (.ofType s.qualifiedName)) slot) bytes
      fun _ => Q (.handle ⟨st.graph.size⟩)) :
    Runs (record env inner s strict slot) st
      ((if strict then Encode.signed 4 s.version else []) ++ bytes) Q :=
  (runsIf_record strategy version h.runsIf).runs trivial

/-- A field is read into the record of a handle. -/
theorem runs_field {s : StructType} {h : Handle} {f : Field} {r : Record}
    {R : Unit → ReadState → Prop}
    (hv : Runs (marked env inner f.refMode (f.hasTypeInfo s.isCompatible) f.shape) st bytes
      fun v st' => st'.graph.node h = .record r ∧ h.index < st'.graph.size ∧
        ∀ graph nulls, st'.graph.Replaces graph h (.record (r.put f.name v)) →
          R () { st' with graph, nulls }) :
    Runs (field env inner s h f) st bytes R := by
  apply hv.then
  rintro v st' ⟨held, bound, hq⟩
  by_cases null : v.isNull = true
  · rw [if_pos null]
    refine .silent (fun _ => rfl) (hq st'.graph (st'.nulls ++ [(h, f.name)]) ?_)
    exact ⟨rfl, by rw [held, Record.put, if_pos null], fun _ _ => rfl⟩
  · rw [if_neg null]
    have put : st'.graph.Replaces (st'.graph.withField h f.name v) h (.record (r.put f.name v)) := by
      simp only [Graph.withField, held, Record.put, if_neg null]
      exact st'.graph.replaces_set _ bound
    exact .silent (fun _ => setField_apply h f.name v _) (hq _ st'.nulls put)

end Read

/-! ## Writing marked values and nodes -/

/-- The next number is the one that a node gets. -/
theorem SeenHandles.mark_new {seen : SeenHandles} {h : Handle} (new : h ∉ seen.handles) :
    seen.mark (.handle h) = ((false, RefFlag.newRef.encode), ⟨seen.handles ++ [h]⟩) := by
  simp [mark, Value.handle?, List.idxOf?_eq_none_iff.2 new]

theorem SeenHandles.mark_known {seen : SeenHandles} {h : Handle} (known : h ∈ seen.handles) :
    ∃ number, seen.handles[number]? = some h ∧
      seen.mark (.handle h) = ((true, RefFlag.ref.encode ++ Encode.varuint32 number), seen) := by
  cases place : seen.handles.idxOf? h with
  | none => exact absurd known (List.idxOf?_eq_none_iff.1 place)
  | some number =>
    obtain ⟨lt, same, -⟩ := List.idxOf?_eq_some_iff.1 place
    exact ⟨number, List.getElem?_eq_some_iff.2 ⟨lt, same⟩, by simp [mark, Value.handle?, place]⟩

theorem SeenHandles.mark_scalar {seen : SeenHandles} {v : Value} (scalar : v.handle? = none) :
    seen.mark v =
      ((v.isNull, (if v.isNull then RefFlag.null else RefFlag.notNull).encode), seen) := by
  unfold mark
  rw [scalar]
  cases v.isNull <;> rfl

namespace Write

variable {env : Environment} {g : Graph} {payload : WritePayload} {shape : Shape} {v : Value}
  {ws : WriteState} {Q : List UInt8 → WriteState → Prop}

/-- A marker that is not complete is followed by the value. -/
theorem ensures_marked {hasType complete : Bool} {marker : List UInt8} {seen : SeenHandles}
    (marking : ws.seen.mark v = ((complete, marker), seen))
    (known : complete = true → Q marker { ws with seen })
    (new : complete = false → Ensures (typed env g payload hasType shape v) { ws with seen }
      fun bytes => Q (marker ++ bytes)) :
    Ensures (marked env g payload .tracking hasType shape v) ws Q := by
  unfold marked
  have marked : mark v ws = .ok ((complete, marker), { ws with seen }) := by
    show Except.ok ((ws.seen.mark v).1, { ws with seen := (ws.seen.mark v).2 }) = _
    rw [marking]
  refine Ensures.bind (Q := fun p ws' => p = (complete, marker) ∧ ws' = { ws with seen }) ?_ ?_
  · intro p ws' run
    rw [marked] at run
    cases run
    exact ⟨rfl, rfl⟩
  · rintro p ws' ⟨same, moved⟩
    subst same moved
    cases complete with
    | true => exact .pure (known rfl)
    | false => exact (new rfl).bind fun bytes ws' hq => .pure hq

/-- A value that gets no number is null behind a marker that says so, or it is not null. -/
theorem ensures_marked_untracked {mode : RefMode} {hasType : Bool} (untracked : mode ≠ .tracking)
    (null : v = .null → mode = .nullOnly → Q RefFlag.null.encode ws)
    (present : v ≠ .null → Ensures (typed env g payload hasType shape v) ws fun bytes ws' =>
      (mode = .nullOnly → Q (RefFlag.notNull.encode ++ bytes) ws') ∧ (mode = .none → Q bytes ws')) :
    Ensures (marked env g payload mode hasType shape v) ws Q := by
  have notNull (some : ¬v.isNull = true) : v ≠ .null := fun same => some (same ▸ rfl)
  unfold marked
  cases mode with
  | tracking => exact absurd rfl untracked
  | nullOnly =>
    dsimp only
    split
    · exact .pure (null (Value.eq_null_of_isNull ‹_›) rfl)
    · exact (present (notNull ‹_›)).bind fun bytes ws' h => .pure (h.1 rfl)
  | none =>
    dsimp only
    split
    · exact .throw _
    · exact (present (notNull ‹_›)).mono fun bytes ws' h => h.2 rfl

theorem ensures_items {elements : List Value}
    (h : Ensures
      (concat
        (element env g payload (env.elementHeader shape.parts.1 elements) shape.parts.1) elements) ws
      fun bytes => Q (Encode.counted elements.length
        (env.elementHeader shape.parts.1 elements).encode bytes)) :
    Ensures (items env g payload shape elements) ws Q := by
  unfold items
  by_cases none : elements = []
  · subst none
    exact .pure (by simpa [Encode.counted] using h [] ws rfl)
  · rw [if_neg none]
    refine h.bind fun bytes ws' hq => .pure ?_
    have some : elements.length ≠ 0 := by simpa using none
    rwa [Encode.counted, if_neg some, ← List.append_assoc] at hq

theorem ensures_entries {pairs : List (Value × Value)}
    (h : Ensures
      (concat (fun pair => do
        let key ← element env g payload
          (env.elementHeader shape.parts.1 (pairs.map (·.1))) shape.parts.1 pair.1
        let value ← element env g payload
          (env.elementHeader shape.parts.2 (pairs.map (·.2))) shape.parts.2 pair.2
        return key ++ value) pairs) ws
      fun bytes => Q (Encode.counted pairs.length
        ((env.elementHeader shape.parts.1 (pairs.map (·.1))).encode ++
          (env.elementHeader shape.parts.2 (pairs.map (·.2))).encode) bytes)) :
    Ensures (entries env g payload shape pairs) ws Q := by
  unfold entries
  by_cases none : pairs = []
  · subst none
    exact .pure (by simpa [Encode.counted] using h [] ws rfl)
  · rw [if_neg none]
    refine h.bind fun bytes ws' hq => .pure ?_
    have some : pairs.length ≠ 0 := by simpa using none
    rwa [Encode.counted, if_neg some, ← List.append_assoc, ← List.append_assoc] at hq

theorem ensures_record {s : StructType} {r : Record} {strict : Bool}
    (strategy : env.config.strategy = .interpreted)
    (h : Ensures (concat (field env g payload s r) s.fields) ws
      fun bytes => Q ((if strict then Encode.signed 4 s.version else []) ++ bytes)) :
    Ensures (record env g payload s strict r) ws Q := by
  unfold record fields
  rw [strategy]
  exact h.bind fun bytes ws' hq => .pure hq

/-- A node is entered while a level is left. -/
theorem ensures_descend {inner : Option WritePayload} {m : WritePayload → Write (List UInt8)}
    (h : ∀ payload, inner = some payload → Ensures (m payload) ws Q) :
    Ensures (do m (← (env.descend inner : Except Error WritePayload))) ws Q := by
  cases inner with
  | none => exact Ensures.bind (Q := fun _ _ => False) (.error _) fun _ _ never => never.elim
  | some payload => exact h payload rfl

/-- A container is written by what its node holds. -/
theorem ensures_container {inner : Option WritePayload} {t : TypeId}
    (list : ∀ payload elements, inner = some payload → g.nodeOf? v = some (.list elements) →
      t = .list → Ensures (items env g payload shape elements) ws Q)
    (set : ∀ payload elements, inner = some payload → g.nodeOf? v = some (.set elements) →
      t = .set → Ensures (items env g payload shape elements) ws Q)
    (map : ∀ payload pairs, inner = some payload → g.nodeOf? v = some (.map pairs) →
      t = .map → Ensures (entries env g payload shape pairs) ws Q) :
    Ensures (container env g inner t shape v) ws Q := by
  unfold container
  split
  · split
    · exact ensures_descend fun payload e => list payload _ e ‹_› ‹_›
    · exact .error _
  · split
    · exact ensures_descend fun payload e => set payload _ e ‹_› ‹_›
    · exact .error _
  · split
    · exact ensures_descend fun payload e => map payload _ e ‹_› ‹_›
    · exact .error _
  · exact .error _

/-- A payload is a scalar, what a node holds, or the ordinal of a member. -/
theorem ensures_layer {inner : Option WritePayload} {wire : WireType}
    (scalar : ∀ t bytes, wire = .builtin t → t.isContainer = false → g.encodeScalar t v = .ok bytes →
      Q bytes ws)
    (list : ∀ payload elements, inner = some payload → g.nodeOf? v = some (.list elements) →
      wire = .builtin .list → Ensures (items env g payload shape elements) ws Q)
    (set : ∀ payload elements, inner = some payload → g.nodeOf? v = some (.set elements) →
      wire = .builtin .set → Ensures (items env g payload shape elements) ws Q)
    (map : ∀ payload pairs, inner = some payload → g.nodeOf? v = some (.map pairs) →
      wire = .builtin .map → Ensures (entries env g payload shape pairs) ws Q)
    (struct : ∀ payload s strict r, inner = some payload → wire = .struct s strict →
      g.asRecord? v = some r → r.typeName = s.qualifiedName →
        Ensures (record env g payload s strict r) ws Q)
    (member : ∀ typeName members name ordinal, wire = .enum typeName members →
      v = .enum name ordinal → Q (Encode.varuint32 ordinal) ws) :
    Ensures (layer env g inner wire shape v) ws Q := by
  cases wire with
  | builtin t =>
    simp only [layer]
    split
    · exact ensures_container (fun payload elements known found same =>
        list payload elements known found (same ▸ rfl)) (fun payload elements known found same =>
        set payload elements known found (same ▸ rfl)) fun payload pairs known found same =>
        map payload pairs known found (same ▸ rfl)
    · rename_i noContainer
      exact .lift fun bytes written => scalar t bytes rfl (Bool.eq_false_iff.2 noContainer) written
  | struct s strict =>
    simp only [layer]
    split
    · exact .error _
    · split
      · exact .throw _
      · exact ensures_descend fun payload known =>
          struct payload s strict _ known rfl ‹_› (not_not.1 ‹_›)
  | peer p => exact .throw _
  | «enum» typeName members =>
    simp only [layer]
    split
    · split
      · exact .pure (member typeName members _ _ rfl rfl)
      · exact .throw _
    · exact .error _

end Write

/-! ## Frames -/

namespace Read

theorem takes_head (isNull : Bool) : Takes (decode Decode.head) (Encode.head isNull) isNull := by
  refine .decode ((Decode.yields_littleEndian 2 magicNumber).bind ?_)
  cases isNull <;> exact (Decode.yields_octet _).then (.pure _)

/-- The end of a frame. -/
theorem ended {v : Value} {st : ReadState} (h : st.reader.rest = []) :
    (do
      let remaining := (← get).reader.remaining
      if remaining ≠ 0 then throw (.trailingBytes remaining)
      return v : Read Value) st = .ok v st := by
  show (if st.reader.remaining ≠ 0 then _ else _ : Read Value) st = _
  rw [Reader.remaining, h]
  rfl

end Read

namespace Instance

theorem deserialize_null (i : Instance) (sane : i.fault = none) :
    (i.deserialize (Encode.head true)).1 = .ok (.null, .empty) := by
  rw [deserialize_of_sane i _ sane]
  rfl

/-- A frame is read or refused as the value in it is. -/
theorem deserialize_of_runsIf {i : Instance} (sane : i.fault = none) {sure : Prop}
    {bytes : List UInt8} {Q : Value → ReadState → Prop}
    (h : Read.RunsIf sure (Read.value i.environment i.rootMode true .dynamic)
      (.ofBytes (Encode.head false ++ bytes) i.cache) bytes Q) :
    (∃ v st, (i.deserialize (Encode.head false ++ bytes)).1 = .ok (v, st.graph) ∧ Q v st) ∨
      ¬sure ∧ ∃ e, (i.deserialize (Encode.head false ++ bytes)).1 = .error e := by
  obtain ⟨p, head⟩ := Read.takes_head false (.ofBytes (Encode.head false ++ bytes) i.cache) bytes rfl
  let at' : ReadState := .ofBytes (Encode.head false ++ bytes) i.cache
  have value := h p []
  rw [List.append_nil] at value
  rcases value with ⟨v, st, p', run, hq⟩ | ⟨unsure, e, s, run⟩
  · have frame : Read.frame i.environment i.rootMode at' = .ok v { st with reader := ⟨p', []⟩ } := by
      unfold Read.frame
      rw [Read.bind_of_ok head]
      exact (Read.bind_of_ok run).trans (Read.ended rfl)
    exact .inl ⟨v, st, by rw [deserialize_of_sane i _ sane, frame], hq⟩
  · have frame : Read.frame i.environment i.rootMode at' = .error e s := by
      unfold Read.frame
      rw [Read.bind_of_ok head]
      exact Read.bind_of_error run
    exact .inr ⟨unsure, e, by rw [deserialize_of_sane i _ sane, frame]⟩

/-- A frame is read if the value in it is. -/
theorem deserialize_of_runs {i : Instance} (sane : i.fault = none) {bytes : List UInt8}
    {Q : Value → ReadState → Prop}
    (h : Read.Runs (Read.value i.environment i.rootMode true .dynamic)
      (.ofBytes (Encode.head false ++ bytes) i.cache) bytes Q) :
    ∃ v st, (i.deserialize (Encode.head false ++ bytes)).1 = .ok (v, st.graph) ∧ Q v st := by
  have sure : Read.RunsIf True _ _ bytes Q := h.runsIf
  exact (deserialize_of_runsIf sane sure).resolve_right fun refused => refused.1 trivial

end Instance

end Graphwire
