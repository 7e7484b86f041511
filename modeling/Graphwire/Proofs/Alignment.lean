import Graphwire.Proofs.Sending

/-!
# Reference numbers that stay aligned

A writer gives a number to every node that it writes with references, and a reader to every such node
that it meets, also where it drops the value. So a reader that takes what was written keeps, under each
number, its copy of the node that has the number with the writer. Which copies it made is noted next to
its state; that all of them hold copies of what the nodes hold is said of every later graph, since a
node that is being read may be referred to from within.
-/

namespace Graphwire

set_option autoImplicit false

/-! ## Copies -/

/-- A copy that a reader made of a node, as it was written under a shape with or without references. -/
structure Copy where
  tracked : Bool
  node : Handle
  shape : Shape
  place : Handle

/-- Whether a value is the copy of a node that is used in a way, unless another value is used. -/
def Use.CopiedTo (use : Use) (all : List Copy) (u : Value) : Prop :=
  ∀ h, use.value = .handle h → ∃ c ∈ all, c.tracked = use.tracked ∧ c.node = h ∧
    (use.tracked = false → c.shape = use.shape) ∧ u = .handle c.place

theorem Use.copiedTo_of_scalar {use : Use} (scalar : use.value.handle? = none) (all : List Copy)
    (u : Value) : use.CopiedTo all u := by
  intro h same
  rw [same] at scalar
  cases scalar

/-- Whether a copy holds, where its peer finds them, copies of the nodes that the node holds. -/
def Copy.Faithful (W R : Environment) (g g' : Graph) (all : List Copy) (c : Copy) : Prop :=
  ∀ step step' use, (step, use) ∈ W.uses c.shape (g.node c.node) →
    W.Counterpart R (g.node c.node) step step' →
      ∀ h, use.value = .handle h → ∃ u, (g'.node c.place).follow? step' = some u ∧ use.CopiedTo all u

/-- The copies that have a number, in the order of their numbers. -/
def numberedCopies (copies : List Copy) : List Copy := copies.filter (·.tracked)

/-- The node that waits for its copy before a value is read that is used in a way. -/
def Use.pending (use : Use) : Option (Handle × Shape) :=
  if use.tracked then use.value.handle?.map (·, use.shape) else none

theorem Use.pending_of_scalar {use : Use} (scalar : use.value.handle? = none) :
    use.pending = none := by
  simp [pending, scalar]

/-- The number that was given last, if it is that of the node that waits. -/
def Use.slot (use : Use) (notes : Notes) : Option Nat :=
  use.pending.map fun _ => notes.numbered.length - 1

/-- Whether a reader has for each number, except that of a node that waits, a place of its own with a
copy of the node that has the number with the writer. -/
structure Aligned (W R : Environment) (g : Graph) (notes : Notes) (pending : Option (Handle × Shape))
    (copies : List Copy) (st : ReadState) : Prop where
  numbered : notes.numbered =
    (numberedCopies copies).map (fun c => (c.node, c.shape)) ++ pending.toList
  slots : st.slots.values.toList =
    (numberedCopies copies).map (fun c => some (.handle c.place)) ++ pending.toList.map fun _ => none
  bounds : ∀ c ∈ copies, c.place.index < st.graph.size
  apart : ((numberedCopies copies).map (·.place)).Nodup
  told : W.Told R g notes.told st

namespace Aligned

variable {W R : Environment} {g : Graph} {notes : Notes} {pending : Option (Handle × Shape)}
  {copies : List Copy} {st st' : ReadState}

theorem initial (W R : Environment) (g : Graph) (bytes : List UInt8) :
    Aligned W R g ⟨[], []⟩ none [] (.ofBytes bytes .empty) where
  numbered := rfl
  slots := rfl
  bounds _ member := absurd member List.not_mem_nil
  apart := List.nodup_nil
  told := .initial ..

/-- Nothing else of a reader matters but its numbers, what it was told, and that its graph grows. -/
theorem moved (aligned : Aligned W R g notes pending copies st) (size : st.graph.size ≤ st'.graph.size)
    (slots : st'.slots = st.slots) (received : st'.received = st.received)
    (cache : st'.cache = st.cache) : Aligned W R g notes pending copies st' where
  numbered := aligned.numbered
  slots := slots ▸ aligned.slots
  bounds c member := Nat.lt_of_lt_of_le (aligned.bounds c member) size
  apart := aligned.apart
  told := ⟨aligned.told.members, received ▸ aligned.told.received, cache ▸ aligned.told.cache⟩

/-- The number of a node leads to its copy. -/
theorem resolve (aligned : Aligned W R g notes none copies st) {number : Nat} {h : Handle}
    (numbered : (notes.numbered.map (·.1))[number]? = some h) :
    ∃ c ∈ copies, c.tracked = true ∧ c.node = h ∧
      st.slots.values[number]? = some (some (.handle c.place)) := by
  rw [aligned.numbered, Option.toList_none, List.append_nil, List.map_map, List.getElem?_map] at numbered
  obtain ⟨c, at', same⟩ := Option.map_eq_some_iff.1 numbered
  obtain ⟨member, tracked⟩ := List.mem_filter.1 (List.mem_of_getElem? at')
  refine ⟨c, member, tracked, same, ?_⟩
  rw [← Array.getElem?_toList, aligned.slots, Option.toList_none, List.map_nil, List.append_nil,
    List.getElem?_map, at']
  rfl

/-- The next number is reserved for a new node. -/
theorem reserve (aligned : Aligned W R g notes none copies st) (entry : Handle × Shape)
    (few : notes.numbered.length < 2 ^ 32) :
    st.slots.reserve.1 = notes.numbered.length ∧
      Aligned W R g { notes with numbered := notes.numbered ++ [entry] } (some entry) copies
        { st with slots := st.slots.reserve.2 } := by
  have slots := aligned.slots
  have numbered := aligned.numbered
  simp only [Option.toList_none, List.map_nil, List.append_nil] at slots numbered
  have count : st.slots.values.size = notes.numbered.length := by
    rw [← Array.length_toList, slots, numbered, List.length_map, List.length_map]
  refine ⟨?_, { aligned with numbered := ?_, slots := ?_, told := ?_ }⟩
  · rw [Slots.number_reserve (count ▸ few), count]
  · rw [numbered]
    rfl
  · show (st.slots.values.push none).toList = _
    rw [Array.toList_push, slots]
    rfl
  · exact ⟨aligned.told.members, aligned.told.received, aligned.told.cache⟩

/-- A node that was added is the copy of the node that waits, or one without a number. -/
theorem opened {use : Use} {h : Handle} (value : use.value = .handle h)
    (aligned : Aligned W R g notes use.pending copies st) (n : Node) :
    Aligned W R g notes none (copies ++ [⟨use.tracked, h, use.shape, ⟨st.graph.size⟩⟩])
      (st.opened n (use.slot notes)) := by
  have slots := aligned.slots
  have numbered := aligned.numbered
  have size : (st.opened n (use.slot notes)).graph.size = st.graph.size + 1 := by
    simp [ReadState.opened]
  have bounds : ∀ c ∈ copies ++ [(⟨use.tracked, h, use.shape, ⟨st.graph.size⟩⟩ : Copy)],
      c.place.index < (st.opened n (use.slot notes)).graph.size := by
    intro c member
    rw [size]
    rcases List.mem_append.1 member with old | new
    · exact Nat.lt_succ_of_lt (aligned.bounds c old)
    · cases List.mem_singleton.1 new
      exact Nat.lt_succ_self _
  have told : W.Told R g notes.told (st.opened n (use.slot notes)) :=
    ⟨aligned.told.members, aligned.told.received, aligned.told.cache⟩
  cases tracked : use.tracked with
  | false =>
    have waiting : use.pending = none := by simp [Use.pending, tracked]
    have same : numberedCopies (copies ++ [⟨false, h, use.shape, ⟨st.graph.size⟩⟩]) =
        numberedCopies copies := by simp [numberedCopies]
    rw [waiting] at slots numbered
    refine ⟨same ▸ numbered, ?_, tracked ▸ bounds, same ▸ aligned.apart, told⟩
    rw [same, ← slots]
    simp [ReadState.opened, Use.slot, waiting]
  | true =>
    have waiting : use.pending = some (h, use.shape) := by
      simp [Use.pending, tracked, value, Value.handle?]
    have more : numberedCopies (copies ++ [⟨true, h, use.shape, ⟨st.graph.size⟩⟩]) =
        numberedCopies copies ++ [⟨true, h, use.shape, ⟨st.graph.size⟩⟩] := by simp [numberedCopies]
    rw [waiting] at slots numbered
    simp only [Option.toList_some, List.map_singleton] at slots numbered
    refine ⟨?_, ?_, tracked ▸ bounds, ?_, told⟩
    · rw [more, numbered]
      simp
    · have number : use.slot notes = some (numberedCopies copies).length := by
        simp [Use.slot, waiting, numbered]
      rw [more, number]
      simp [ReadState.opened, Slots.fill, Array.toList_setIfInBounds, slots]
    · rw [more, List.map_append]
      refine List.nodup_append.2 ⟨aligned.apart, List.nodup_singleton _, fun a old b new same => ?_⟩
      obtain ⟨c, member, rfl⟩ := List.mem_map.1 old
      cases List.mem_singleton.1 new
      have bound := aligned.bounds c (List.mem_of_mem_filter member)
      rw [same] at bound
      exact Nat.lt_irrefl _ bound

/-- There is one copy for each node with a number. -/
theorem unique (aligned : Aligned W R g notes none copies st)
    (distinct : (notes.numbered.map (·.1)).Nodup) {c d : Copy} (hc : c ∈ copies)
    (hd : d ∈ copies) (tracked : c.tracked = true) (tracked' : d.tracked = true)
    (same : c.node = d.node) : c = d := by
  have numbered := aligned.numbered
  rw [Option.toList_none, List.append_nil] at numbered
  rw [numbered, List.map_map] at distinct
  exact List.inj_on_of_nodup_map distinct (List.mem_filter.2 ⟨hc, tracked⟩)
    (List.mem_filter.2 ⟨hd, tracked'⟩) same

/-- Copies with a number have places of their own. -/
theorem eq_of_place (aligned : Aligned W R g notes none copies st) {c d : Copy} (hc : c ∈ copies)
    (hd : d ∈ copies) (tracked : c.tracked = true) (tracked' : d.tracked = true)
    (same : c.place = d.place) : c = d :=
  List.inj_on_of_nodup_map aligned.apart (List.mem_filter.2 ⟨hc, tracked⟩)
    (List.mem_filter.2 ⟨hd, tracked'⟩) same

/-- A copy stands behind its number, so it can be put there once more. -/
theorem fill (aligned : Aligned W R g notes none copies st)
    (distinct : (notes.numbered.map (·.1)).Nodup) {c : Copy} (member : c ∈ copies)
    (tracked : c.tracked = true) {number : Nat}
    (numbered : (notes.numbered.map (·.1))[number]? = some c.node) :
    Aligned W R g notes none copies
      { st with slots := st.slots.fill number (.handle c.place) } := by
  obtain ⟨d, hd, tracked', same, found⟩ := aligned.resolve numbered
  cases aligned.unique distinct hd member tracked' tracked same
  refine aligned.moved (Nat.le_refl _) ?_ rfl rfl
  show Slots.mk (st.slots.values.setIfInBounds number _) = st.slots
  obtain ⟨lt, here⟩ := Array.getElem?_eq_some_iff.1 found
  rw [Array.setIfInBounds_def, dif_pos lt, ← here, Array.set_getElem_self]

end Aligned

/-! ## Reading copies -/

namespace Read

/-- Whether a reader that had made copies, and had a graph, made more and is aligned now. Every graph with
the nodes that were added holds faithful copies, and something is known of the result. -/
def Added (W R : Environment) (g : Graph) {α : Type} (notes : Notes) (copies : List Copy)
    (start : Graph) (P : List Copy → α → Prop) (a : α) (st : ReadState) : Prop :=
  ∃ made, Aligned W R g notes none (copies ++ made) st ∧ start.Extends st.graph ∧
    ∀ all g', copies ++ made ⊆ all → Graph.Agrees start.size st.graph g' →
      (∀ c ∈ made, c.Faithful W R g g' all) ∧ P all a

/-- Whether a reader that is aligned with a writer, if it takes the bytes, adds copies and is aligned
with the later writer then, as long as there are numbers. -/
def Reproduces (W R : Environment) (g : Graph) {α : Type} (before : Notes)
    (pending : Option (Handle × Shape)) (last : Notes) (m : Read α) (bytes : List UInt8)
    (P : List Copy → α → Prop) : Prop :=
  last.numbered.length ≤ 2 ^ 32 → ∀ copies st, Aligned W R g before pending copies st →
    RunsIf False m st bytes (Added W R g last copies st.graph P)

namespace Reproduces

variable {W R : Environment} {g : Graph} {α β : Type} {before mid last : Notes}
  {pending : Option (Handle × Shape)} {bytes front back : List UInt8} {P : List Copy → α → Prop}
  {Q : List Copy → β → Prop}

theorem takes {m : Read α} {a : α} (hm : Takes m bytes a) (h : ∀ all, P all a) :
    Reproduces W R g before none before m bytes P := by
  intro _ copies st aligned
  refine (hm.runs ⟨[], ?_, .refl _, fun all g' _ _ => ⟨nofun, h all⟩⟩).runsIf
  rwa [List.append_nil]

theorem pure {a : α} (h : ∀ all, P all a) : Reproduces W R g before none before (pure a) [] P :=
  .takes (.pure a) h

theorem throw (e : Error) : Reproduces W R g before pending last (throw e) bytes P :=
  fun _ _ _ _ => .throw id e

theorem after {m : Read α} {f : α → Read β} {a : α} (hm : Takes m front a)
    (hf : Reproduces W R g before pending last (f a) back Q) :
    Reproduces W R g before pending last (m >>= f) (front ++ back) Q :=
  fun few copies st aligned => .after hm (hf few copies st aligned)

theorem bind {m : Read α} {f : α → Read β} (hm : Reproduces W R g before pending mid m front P)
    (numbered : mid.numbered <+: last.numbered)
    (hf : ∀ a, Reproduces W R g mid none last (f a) back fun all b => P all a → Q all b) :
    Reproduces W R g before pending last (m >>= f) (front ++ back) Q := by
  intro few copies st aligned
  refine (hm (Nat.le_trans numbered.length_le few) copies st aligned).bind ?_
  rintro a st₁ ⟨made, aligned₁, ext, first⟩
  refine (hf a few _ st₁ aligned₁).mono ?_
  rintro b st₂ ⟨more, aligned₂, ext', second⟩
  rw [List.append_assoc] at aligned₂
  refine ⟨made ++ more, aligned₂, ext.trans ext', fun all g' sub agrees => ?_⟩
  rw [← List.append_assoc] at sub
  obtain ⟨faithful, hP⟩ := first all g' (List.append_subset.1 sub).1 fun h le lt =>
    (agrees h le (Nat.lt_of_lt_of_le lt ext'.size)).trans (ext'.node h lt)
  obtain ⟨faithful', hQ⟩ := second all g' sub fun h le lt =>
    agrees h (Nat.le_trans ext.size le) lt
  exact ⟨fun c member => (List.mem_append.1 member).elim (faithful c) (faithful' c), hQ hP⟩

/-- The copy that was begun with a node is added with those within it. -/
theorem added_copy {use : Use} {h place : Handle} (value : use.value = .handle h)
    {copies made : List Copy} {start : Graph} {st : ReadState}
    (aligned : Aligned W R g last none (copies ++ [⟨use.tracked, h, use.shape, place⟩] ++ made) st)
    (ext : start.Extends st.graph)
    (later : ∀ all g', copies ++ [⟨use.tracked, h, use.shape, place⟩] ++ made ⊆ all →
      Graph.Agrees start.size st.graph g' →
        Copy.Faithful W R g g' all ⟨use.tracked, h, use.shape, place⟩ ∧
          ∀ c ∈ made, c.Faithful W R g g' all) :
    Added W R g last copies start use.CopiedTo (.handle place) st := by
  rw [List.append_assoc] at aligned
  refine ⟨_, aligned, ext, fun all g' sub agrees => ?_⟩
  rw [← List.append_assoc] at sub
  obtain ⟨here, others⟩ := later all g' sub agrees
  have member := sub (List.mem_append_left _ (List.mem_append_right _ (List.mem_singleton_self _)))
  refine ⟨fun c hc => ?_, fun k same => ⟨_, member, rfl, ?_, fun _ => rfl, rfl⟩⟩
  · rcases List.mem_append.1 hc with new | old
    · cases List.mem_singleton.1 new
      exact here
    · exact others c old
  · cases value.symm.trans same
    rfl

/-- A node that was added is replaced once its contents were read. -/
theorem closed {m : Read α} {use : Use} {h : Handle} (value : use.value = .handle h) {empty : Node}
    {full : α → Node} (contents : Reproduces W R g before none last m bytes P)
    (faithful : ∀ all g' place a, P all a → g'.node place = full a →
      Copy.Faithful W R g g' all ⟨use.tracked, h, use.shape, place⟩)
    (few : last.numbered.length ≤ 2 ^ 32) {copies : List Copy} {st : ReadState}
    (aligned : Aligned W R g before use.pending copies st) :
    RunsIf False m (st.opened empty (use.slot before)) bytes fun a st' =>
      Added W R g last copies st.graph use.CopiedTo (.handle ⟨st.graph.size⟩)
        { st' with graph := st'.graph.set ⟨st.graph.size⟩ (full a) } := by
  refine (contents few _ _ (aligned.opened value empty)).mono ?_
  rintro a st' ⟨made, aligned', ext, later⟩
  have closing : st.graph.Extends (st'.graph.set ⟨st.graph.size⟩ (full a)) ∧
      ∀ g', Graph.Agrees st.graph.size (st'.graph.set ⟨st.graph.size⟩ (full a)) g' →
        g'.node ⟨st.graph.size⟩ = full a ∧ ∀ all,
          copies ++ [⟨use.tracked, h, use.shape, ⟨st.graph.size⟩⟩] ++ made ⊆ all →
            (∀ c ∈ made, c.Faithful W R g g' all) ∧ P all a :=
    builds_closed ext fun g' agrees all sub => later all g' sub agrees
  refine added_copy value (aligned'.moved (by simp) rfl rfl rfl) closing.1 fun all g' sub agrees => ?_
  obtain ⟨node, inner⟩ := closing.2 g' agrees
  obtain ⟨others, hP⟩ := inner all sub
  exact ⟨faithful all g' _ a hP node, others⟩

end Reproduces

/-! ## Filling records -/

/-- Whether a reader that is aligned with a writer, if it takes the bytes, changes of the nodes that were
there the record of a handle alone, adds copies and is aligned with the later writer then. -/
def Fills (W R : Environment) (g : Graph) (before last : Notes) (m : Handle → Read Unit)
    (bytes : List UInt8) (P : List Copy → Record → Record → Prop) : Prop :=
  last.numbered.length ≤ 2 ^ 32 → ∀ copies st h r, Aligned W R g before none copies st →
    st.graph.node h = .record r → h.index < st.graph.size →
      RunsIf False (m h) st bytes fun _ st' => ∃ made r',
        Aligned W R g last none (copies ++ made) st' ∧ st.graph.Alters st'.graph h ∧
          st'.graph.node h = .record r' ∧ ∀ all g', copies ++ made ⊆ all →
            Graph.Agrees st.graph.size st'.graph g' →
              (∀ c ∈ made, c.Faithful W R g g' all) ∧ P all r r'

namespace Fills

variable {W R : Environment} {g : Graph} {before mid last : Notes} {bytes front back : List UInt8}
  {P₁ P₂ P : List Copy → Record → Record → Prop}

theorem nil (h : ∀ all r, P all r r) : Fills W R g before before (fun _ => Pure.pure ()) [] P := by
  intro _ copies st h' r aligned held _
  refine .pure ⟨[], r, ?_, .refl _ _, held, fun all _ _ _ => ⟨nofun, h all r⟩⟩
  rwa [List.append_nil]

theorem mono {m : Handle → Read Unit} {P' : List Copy → Record → Record → Prop}
    (h : Fills W R g before last m bytes P) (weaker : ∀ all r r', P all r r' → P' all r r') :
    Fills W R g before last m bytes P' := by
  intro few copies st k r aligned held bound
  refine (h few copies st k r aligned held bound).mono ?_
  rintro _ st' ⟨made, r', aligned', altered, held', later⟩
  exact ⟨made, r', aligned', altered, held', fun all g' sub agrees =>
    (later all g' sub agrees).imp_right (weaker all r r')⟩

theorem bind {m₁ m₂ : Handle → Read Unit} (h₁ : Fills W R g before mid m₁ front P₁)
    (numbered : mid.numbered <+: last.numbered) (h₂ : Fills W R g mid last m₂ back P₂)
    (both : ∀ all r r₁ r₂, P₁ all r r₁ → P₂ all r₁ r₂ → P all r r₂) :
    Fills W R g before last (fun h => m₁ h >>= fun _ => m₂ h) (front ++ back) P := by
  intro few copies st h r aligned held bound
  refine (h₁ (Nat.le_trans numbered.length_le few) copies st h r aligned held bound).bind ?_
  rintro _ st₁ ⟨made, r₁, aligned₁, altered₁, held₁, first⟩
  refine (h₂ few _ st₁ h r₁ aligned₁ held₁ (Nat.lt_of_lt_of_le bound altered₁.size)).mono ?_
  rintro _ st₂ ⟨more, r₂, aligned₂, altered₂, held₂, second⟩
  rw [List.append_assoc] at aligned₂
  refine ⟨made ++ more, r₂, aligned₂, altered₁.trans altered₂, held₂, fun all g' sub agrees => ?_⟩
  rw [← List.append_assoc] at sub
  obtain ⟨faithful, hP₁⟩ := first all g' (List.append_subset.1 sub).1 fun k le lt => by
    have ne : k ≠ h := fun same => by subst same; omega
    exact (agrees k le (Nat.lt_of_lt_of_le lt altered₂.size)).trans (altered₂.other k ne lt)
  obtain ⟨faithful', hP₂⟩ := second all g' sub fun k le lt =>
    agrees k (Nat.le_trans altered₁.size le) lt
  exact ⟨fun c member => (List.mem_append.1 member).elim (faithful c) (faithful' c),
    both all r r₁ r₂ hP₁ hP₂⟩

/-- Setting a field. -/
theorem set (name : String) (v : Value) : Fills W R g before before (fun h => setField h name v) []
    fun _ r r' => r' = r.set name v := by
  intro _ copies st h r aligned held bound
  have put : st.graph.Replaces (st.graph.withField h name v) h (.record (r.set name v)) := by
    simp only [Graph.withField, held]
    exact st.graph.replaces_set _ bound
  have run (p : Reader) : setField h name v { st with reader := p } =
      .ok () { { st with graph := st.graph.withField h name v } with reader := p } :=
    setField_apply h name v _
  refine .silent run ⟨[], _, ?_, (Graph.Extends.refl _).replaced put, put.self,
    fun _ _ _ _ => ⟨fun _ none => absurd none List.not_mem_nil, rfl⟩⟩
  rw [List.append_nil]
  exact aligned.moved (Nat.le_of_eq put.size.symm) rfl rfl rfl

/-- A default is filled in. -/
theorem missing (own : Field) : Fills W R g before before (fun h => fillMissing h own) []
    fun _ r r' => ∀ name, name ≠ own.name → r'.get? name = r.get? name := by
  intro few copies st h r aligned held bound
  unfold fillMissing
  refine .check nofun fun d _ => ?_
  cases d with
  | none =>
    refine .pure ⟨[], r, ?_, .refl _ _, held, fun _ _ _ _ => ⟨nofun, fun _ _ => rfl⟩⟩
    rwa [List.append_nil]
  | some t =>
    let copied : ReadState := { st with
      graph := (t.instantiate st.graph).2, filled := st.filled ++ [⟨h, own.name, t, st.graph.size⟩] }
    have ext := t.extends_instantiate st.graph
    have run : RunsIf False (setField h own.name (t.root.shift st.graph.size)) copied []
        fun _ st' => ∃ made r', Aligned W R g before none (copies ++ made) st' ∧
          st.graph.Alters st'.graph h ∧ st'.graph.node h = .record r' ∧ ∀ all g',
            copies ++ made ⊆ all → Graph.Agrees st.graph.size st'.graph g' →
              (∀ c ∈ made, c.Faithful W R g g' all) ∧
                ∀ name, name ≠ own.name → r'.get? name = r.get? name := by
      refine (set own.name (t.root.shift st.graph.size) few copies copied h r
        (aligned.moved ext.size rfl rfl rfl) ((ext.node h bound).trans held)
        (Nat.lt_of_lt_of_le bound ext.size)).mono ?_
      rintro _ st' ⟨made, r', aligned', altered, held', later⟩
      refine ⟨made, r', aligned', (ext.altered h).trans altered, held', fun all g' sub agrees => ?_⟩
      obtain ⟨faithful, rfl⟩ := later all g' sub fun k le lt => agrees k (Nat.le_trans ext.size le) lt
      exact ⟨faithful, fun name ne => by rw [Record.get?_set, if_neg ne]⟩
    exact fun p rest => run p rest

/-- A note about a field that is dropped. -/
theorem dropped : Fills W R g before before (fun _ => noteDropped) [] fun _ r r' => r' = r := by
  intro _ copies st h r aligned held _
  have run (p : Reader) : noteDropped { st with reader := p } =
      .ok () { { st with dropped := st.dropped + 1 } with reader := p } := rfl
  refine .silent run ⟨[], r, ?_, .refl _ _, held, fun _ _ _ _ => ⟨nofun, rfl⟩⟩
  rw [List.append_nil]
  exact aligned.moved (Nat.le_refl _) rfl rfl rfl

/-- A note about a null. -/
theorem null (name : String) : Fills W R g before before (fun h => noteNull h name) []
    fun _ r r' => r' = r := by
  intro _ copies st h r aligned held _
  have run (p : Reader) : noteNull h name { st with reader := p } =
      .ok () { { st with nulls := st.nulls ++ [(h, name)] } with reader := p } := rfl
  refine .silent run ⟨[], r, ?_, .refl _ _, held, fun _ _ _ _ => ⟨nofun, rfl⟩⟩
  rw [List.append_nil]
  exact aligned.moved (Nat.le_refl _) rfl rfl rfl

/-- What is made of a value that was read. -/
theorem ofValue {m : Read Value} (keep : Value → Handle → Read Unit) {Q : List Copy → Value → Prop}
    (hv : Reproduces W R g before none last m bytes Q)
    (kept : ∀ v, Fills W R g last last (keep v) [] fun all r r' => Q all v → P all r r') :
    Fills W R g before last (fun h => m >>= fun v => keep v h) bytes P := by
  intro few copies st h r aligned held bound
  refine (hv few copies st aligned).then ?_
  rintro v st₁ ⟨made, aligned₁, ext, first⟩
  refine (kept v few _ st₁ h r aligned₁ ((ext.node h bound).trans held)
    (Nat.lt_of_lt_of_le bound ext.size)).mono ?_
  rintro _ st₂ ⟨more, r', aligned₂, altered, held', second⟩
  rw [List.append_assoc] at aligned₂
  refine ⟨made ++ more, r', aligned₂, (ext.altered h).trans altered, held', fun all g' sub agrees => ?_⟩
  rw [← List.append_assoc] at sub
  obtain ⟨faithful, hQ⟩ := first all g' (List.append_subset.1 sub).1 fun k le lt => by
    have ne : k ≠ h := fun same => by subst same; omega
    exact (agrees k le (Nat.lt_of_lt_of_le lt altered.size)).trans (altered.other k ne lt)
  obtain ⟨faithful', hP⟩ := second all g' sub fun k le lt => agrees k (Nat.le_trans ext.size le) lt
  exact ⟨fun c member => (List.mem_append.1 member).elim (faithful c) (faithful' c), hP hQ⟩

/-- A record that was added without fields is the copy of the node that waits. -/
theorem opened {m : Handle → Read Unit} {use : Use} {h : Handle} (value : use.value = .handle h)
    {typeName : String} (fills : Fills W R g before last m bytes P)
    (faithful : ∀ all g' place r, P all (.ofType typeName) r → g'.node place = .record r →
      Copy.Faithful W R g g' all ⟨use.tracked, h, use.shape, place⟩)
    (few : last.numbered.length ≤ 2 ^ 32) {copies : List Copy} {st : ReadState}
    (aligned : Aligned W R g before use.pending copies st) :
    RunsIf False (m ⟨st.graph.size⟩) (st.opened (.record (.ofType typeName)) (use.slot before)) bytes
      fun _ => Added W R g last copies st.graph use.CopiedTo (.handle ⟨st.graph.size⟩) := by
  have bound : st.graph.size <
      (st.opened (.record (.ofType typeName)) (use.slot before)).graph.size := by
    simp [ReadState.opened]
  refine (fills few _ _ ⟨st.graph.size⟩ (.ofType typeName) (aligned.opened value _)
    (Graph.node_alloc_new ..) bound).mono ?_
  rintro _ st' ⟨made, r, aligned', altered, held, later⟩
  have bound' := Nat.lt_of_lt_of_le bound altered.size
  refine Reproduces.added_copy value aligned' ((Graph.Extends.alloc ..).alters altered (Nat.le_refl _))
    fun all g' sub agrees => ?_
  obtain ⟨others, hP⟩ := later all g' sub fun k le lt =>
    agrees k (Nat.le_of_lt (Nat.lt_of_lt_of_le bound le)) lt
  exact ⟨faithful all g' _ r hP ((agrees _ (Nat.le_refl _) bound').trans held), others⟩

end Fills

end Read

end Graphwire
