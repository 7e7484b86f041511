import Graphwire.Proofs.Alignment
import Graphwire.Proofs.References

/-!
# Values that are conveyed

A step of writing conveys values if it gives the numbers that their nodes get, and a reader that is
aligned before can read what was written and is aligned then. Values that are marked are conveyed if
they are once their marker was read, and containers are if their contents are one level further in.
-/

namespace Graphwire

set_option autoImplicit false

open Read (RunsIf Reproduces Fills)

/-- Whether what a writer of a graph writes gives numbers to nodes, and can be read by a reader that
remembers the same as the writer. -/
def Conveys (W : Environment) (g : Graph) (write : Write (List UInt8))
    (number : List (Handle × Shape) → List (Handle × Shape))
    (reads : Notes → Notes → List UInt8 → Prop) : Prop :=
  ∀ notes ws, Noted W g notes ws → Write.Ensures write ws fun bytes ws' =>
    ∃ notes', Noted W g notes' ws' ∧ notes'.numbered = number notes.numbered ∧
      notes.numbered <+: notes'.numbered ∧ reads notes notes' bytes

namespace Conveys

variable {W R : Environment} {g : Graph} {α β γ : Type} {write write' : Write (List UInt8)}
  {number number' : List (Handle × Shape) → List (Handle × Shape)}
  {reads reads' : Notes → Notes → List UInt8 → Prop}

theorem mono (h : Conveys W g write number reads)
    (weaker : ∀ notes notes' bytes, reads notes notes' bytes → reads' notes notes' bytes) :
    Conveys W g write number reads' := by
  intro notes ws noted
  refine (h notes ws noted).mono ?_
  rintro bytes ws' ⟨notes', noted', same, begins, read⟩
  exact ⟨notes', noted', same, begins, weaker _ _ _ read⟩

theorem pure {bytes : List UInt8} (same : ∀ numbered, number numbered = numbered)
    (read : ∀ notes, reads notes notes bytes) : Conveys W g (Pure.pure bytes) number reads :=
  fun notes _ noted => .pure ⟨notes, noted, (same _).symm, List.prefix_refl _, read notes⟩

theorem throw (e : Error) : Conveys W g (throw e) number reads := fun _ _ _ => .throw e

/-- Things that are written one after the other are read one after the other. -/
theorem many {write : α → Write (List UInt8)}
    {number : α → List (Handle × Shape) → List (Handle × Shape)} {one : Read β}
    {P : α → List Copy → β → Prop} {items : List α}
    (step : ∀ a ∈ items, Conveys W g (write a) (number a) fun notes notes' bytes =>
      Reproduces W R g notes none notes' one bytes (P a)) :
    Conveys W g (Write.concat write items)
      (fun numbered => items.foldl (fun numbered a => number a numbered) numbered)
      fun notes notes' bytes => Reproduces W R g notes none notes' (Read.many one items.length) bytes
        fun all bs => List.Forall₂ (fun a b => P a all b) items bs := by
  induction items with
  | nil => exact .pure (fun _ => rfl) fun _ => .pure fun _ => .nil
  | cons a items ih =>
    obtain ⟨here, there⟩ := List.forall_mem_cons.1 step
    intro notes ws noted
    refine (here notes ws noted).bind ?_
    rintro front ws₁ ⟨notes₁, noted₁, same₁, begins₁, first⟩
    refine (ih there notes₁ ws₁ noted₁).bind ?_
    rintro back ws₂ ⟨notes₂, noted₂, same₂, begins₂, others⟩
    refine .pure ⟨notes₂, noted₂, by rw [same₂, same₁]; rfl, begins₁.trans begins₂, ?_⟩
    refine first.bind begins₂ fun b => ?_
    rw [← List.append_nil back]
    exact others.bind (List.prefix_refl _) fun bs => .pure fun all others first =>
      .cons first others

/-- Two things are written one after the other, and read as a pair. -/
theorem pair {one : Read α} {other : Read β} {P : List Copy → α → Prop} {Q : List Copy → β → Prop}
    (first : Conveys W g write number fun notes notes' bytes =>
      Reproduces W R g notes none notes' one bytes P)
    (second : Conveys W g write' number' fun notes notes' bytes =>
      Reproduces W R g notes none notes' other bytes Q) :
    Conveys W g (do return (← write) ++ (← write')) (fun numbered => number' (number numbered))
      fun notes notes' bytes => Reproduces W R g notes none notes'
        (do
          let a ← one
          let b ← other
          return (a, b)) bytes fun all p => P all p.1 ∧ Q all p.2 := by
  intro notes ws noted
  refine (first notes ws noted).bind ?_
  rintro front ws₁ ⟨notes₁, noted₁, same₁, begins₁, read₁⟩
  refine (second notes₁ ws₁ noted₁).bind ?_
  rintro back ws₂ ⟨notes₂, noted₂, same₂, begins₂, read₂⟩
  refine .pure ⟨notes₂, noted₂, by rw [same₂, same₁], begins₁.trans begins₂, ?_⟩
  refine read₁.bind begins₂ fun a => ?_
  rw [← List.append_nil back]
  exact read₂.bind (List.prefix_refl _) fun b => .pure fun all second first => ⟨first, second⟩

end Conveys

/-! ## Marked values -/

theorem Value.eq_handle_of_handle? {v : Value} {h : Handle} (same : v.handle? = some h) :
    v = .handle h := by
  cases v <;> cases same
  rfl

theorem Environment.enter_of_scalar (W : Environment) (g : Graph) {use : Use}
    (scalar : use.value.handle? = none) (levels : Nat) (numbered : List (Handle × Shape)) :
    W.enter g levels use numbered = numbered := by
  cases levels with
  | zero => rfl
  | succ levels =>
    rw [Environment.enter]
    split
    · rename_i h same
      rw [same] at scalar
      cases scalar
    · rfl

namespace Use

variable {use : Use} {enter : List (Handle × Shape) → List (Handle × Shape)}
  {numbered : List (Handle × Shape)}

theorem note_of_scalar (scalar : use.value.handle? = none) : use.note enter numbered = numbered := by
  unfold note
  split
  · rename_i h same
    rw [same] at scalar
    cases scalar
  · rfl

theorem note_of_untracked {h : Handle} (value : use.value = .handle h)
    (untracked : use.tracked = false) : use.note enter numbered = enter numbered := by
  simp only [note, value, untracked, Bool.false_and, Bool.false_eq_true, if_false]

theorem note_of_known {h : Handle} (value : use.value = .handle h) (tracked : use.tracked = true)
    (known : h ∈ numbered.map (·.1)) : use.note enter numbered = numbered := by
  obtain ⟨entry, member, same⟩ := List.mem_map.1 known
  have any : (numbered.any (·.1 = h)) = true := List.any_eq_true.2 ⟨entry, member, by simp [same]⟩
  simp only [note, value, tracked, any, Bool.and_self, if_true]

theorem note_of_new {h : Handle} (value : use.value = .handle h) (tracked : use.tracked = true)
    (new : h ∉ numbered.map (·.1)) :
    use.note enter numbered = enter (numbered ++ [(h, use.shape)]) := by
  have any : (numbered.any (·.1 = h)) = false := by
    refine List.any_eq_false.2 fun entry member same => new ?_
    exact List.mem_map.2 ⟨entry, member, by simpa using same⟩
  simp only [note, value, tracked, any, Bool.and_false, Bool.false_eq_true, if_false, if_true]

end Use

/-- Whether payloads that a writer writes with a number of levels left are conveyed to a reader of
payloads. -/
def Passes (W R : Environment) (g : Graph) (levels : Nat) (write : WritePayload) (read : ReadPayload) :
    Prop :=
  ∀ (use : Use) (typed : Bool) (q : Place) (wire : WireType), use.value.Short →
    (Place.mk typed use.shape).Meets q → W.SentAs g use.value wire →
      Conveys W g (write wire use.shape use.value) (W.enter g levels use) fun notes notes' bytes =>
        ∀ wire', wire.Faces R.registry wire' → Reproduces W R g notes use.pending notes'
          (read wire' q.shape (use.slot notes)) bytes use.CopiedTo

/-- Where no type is told the declared one is a type that needs no names. -/
theorem Environment.declaredType_builtin {env : Environment} {shape : Shape} {wire : WireType}
    (closed : shape.erased ≠ .dynamic) (declared : env.declaredType shape = .ok wire) :
    ∃ t, wire = .builtin t := by
  cases shape <;> first | exact absurd rfl closed | (cases declared; exact ⟨_, rfl⟩)

namespace Passes

variable {W R : Environment} {g : Graph} {levels : Nat} {write : WritePayload} {read : ReadPayload}
  (reaches : W.Reaches R g) (passes : Passes W R g levels write read) {use : Use}
  (short : use.value.Short) {told : Bool} {q : Place} (met : (Place.mk told use.shape).Meets q)

include reaches passes short met

/-- A value is conveyed with its type, told or not. -/
theorem typed : Conveys W g (Write.typed W g write told use.shape use.value) (W.enter g levels use)
    fun notes notes' bytes => Reproduces W R g notes use.pending notes'
      (Read.typed R read q.typed q.shape (use.slot notes)) bytes use.CopiedTo := by
  intro notes ws noted
  have same : told = q.typed := met.typed
  dsimp only
  rw [Read.typed_eq, ← same]
  unfold Write.typed
  cases typed : told with
  | true =>
    refine (reaches.ensures_typeInfo short noted).bind ?_
    rintro ⟨info, wire⟩ ws₁ ⟨sentAs, told', noted₁, reads⟩
    refine (passes use told q wire short met sentAs { notes with told := told' } ws₁ noted₁).bind ?_
    rintro bytes ws₂ ⟨notes₂, noted₂, numbered, begins, payload⟩
    refine .pure ⟨notes₂, noted₂, numbered, begins, fun few copies st aligned => ?_⟩
    refine (reads st aligned.told).bind ?_
    rintro wire' st₁ ⟨faces, keeps, graph, slots⟩
    have aligned₁ : Aligned W R g { notes with told := told' } use.pending copies st₁ :=
      { numbered := aligned.numbered
        slots := slots ▸ aligned.slots
        bounds := graph ▸ aligned.bounds
        apart := aligned.apart
        told := keeps }
    rw [← graph]
    exact payload wire' faces few copies st₁ aligned₁
  | false =>
    refine Write.Ensures.bind (Q := fun wire ws' => ws' = ws ∧ W.declaredType use.shape = .ok wire)
      (.lift fun _ declared => ⟨rfl, declared⟩) ?_
    rintro wire ws' ⟨same, declared⟩
    rw [same]
    obtain ⟨t, rfl⟩ := Environment.declaredType_builtin (met.declared typed).2 declared
    refine (passes use told q _ short met (.builtin t) notes ws noted).mono ?_
    rintro bytes ws₁ ⟨notes₁, noted₁, numbered, begins, payload⟩
    refine ⟨notes₁, noted₁, numbered, begins, .after (.check ?_) (payload _ (.builtin t))⟩
    exact (Environment.declaredType_of_meets met typed).trans declared

/-- A value whose references are not tracked is conveyed behind a marker for nulls, or without one. -/
theorem marked_untracked (untracked : use.tracked = false) (nullable : Bool) :
    Conveys W g (Write.marked W g write (.ofFlags nullable false) told use.shape use.value)
      (use.note (W.enter g levels use)) fun notes notes' bytes => Reproduces W R g notes none notes'
        (Read.marked R read (.ofFlags nullable false) q.typed q.shape) bytes use.CopiedTo := by
  have pending : use.pending = none := by simp [Use.pending, untracked]
  have number (numbered : List (Handle × Shape)) :
      use.note (W.enter g levels use) numbered = W.enter g levels use numbered := by
    cases handle : use.value.handle? with
    | none => rw [Use.note_of_scalar handle, W.enter_of_scalar g handle]
    | some h => exact Use.note_of_untracked (Value.eq_handle_of_handle? handle) untracked
  have conveyed : Conveys W g (Write.typed W g write told use.shape use.value)
      (use.note (W.enter g levels use)) fun notes notes' bytes => Reproduces W R g notes none notes'
        (Read.typed R read q.typed q.shape none) bytes use.CopiedTo := by
    have run := passes.typed reaches short met
    simp only [Use.slot, pending, Option.map_none] at run
    rwa [funext number]
  intro notes ws noted
  refine Write.ensures_marked_untracked (by cases nullable <;> decide) (fun null markers => ?_)
    fun _ => (conveyed notes ws noted).mono ?_
  · have scalar : use.value.handle? = none := null ▸ rfl
    exact ⟨notes, noted, (Use.note_of_scalar scalar).symm, List.prefix_refl _,
      .takes (Read.takes_marked_null (by simp [markers])) fun all =>
        Use.copiedTo_of_scalar scalar all _⟩
  · rintro bytes ws₁ ⟨notes₁, noted₁, numbered, begins, reads⟩
    refine ⟨fun markers => ⟨notes₁, noted₁, numbered, begins, fun few copies st aligned => ?_⟩,
      fun plain => ?_⟩
    · exact Read.runsIf_marked_notNull (by simp [markers]) (reads few copies st aligned)
    · rw [plain]
      exact ⟨notes₁, noted₁, numbered, begins, reads⟩

omit reaches passes short met in
/-- A node with a number is conveyed as the number. -/
theorem marked_known {h : Handle} (value : use.value = .handle h) (tracked : use.tracked = true)
    {notes : Notes} {ws : WriteState} (noted : Noted W g notes ws)
    (known : h ∈ notes.numbered.map (·.1)) :
    Write.Ensures (Write.marked W g write .tracking told use.shape use.value) ws fun bytes ws' =>
      ∃ notes', Noted W g notes' ws' ∧
        notes'.numbered = use.note (W.enter g levels use) notes.numbered ∧
          notes.numbered <+: notes'.numbered ∧ Reproduces W R g notes none notes'
            (Read.marked R read .tracking q.typed q.shape) bytes use.CopiedTo := by
  obtain ⟨number, place, marking⟩ := SeenHandles.mark_known (noted.seen ▸ known)
  rw [value]
  refine Write.ensures_marked marking (fun _ => ?_) nofun
  refine ⟨notes, noted, (Use.note_of_known value tracked known).symm, List.prefix_refl _, ?_⟩
  intro few copies st aligned
  rw [noted.seen] at place
  obtain ⟨c, member, tracked', same, found⟩ := aligned.resolve place
  have lt := (List.getElem?_eq_some_iff.1 place).1
  rw [List.length_map] at lt
  refine Read.runsIf_marked_ref (Nat.lt_of_lt_of_le lt few) found ⟨[], ?_, .refl _, fun all g' sub _ =>
    ⟨nofun, fun k handle => ⟨c, sub (List.mem_append_left _ member), tracked'.trans tracked.symm, ?_,
      fun untracked => ?_, rfl⟩⟩⟩
  · rwa [List.append_nil]
  · cases value.symm.trans handle
    exact same
  · cases tracked.symm.trans untracked

/-- A new node gets the next number before it is conveyed. -/
theorem marked_new {h : Handle} (value : use.value = .handle h) (tracked : use.tracked = true)
    {notes : Notes} {ws : WriteState} (noted : Noted W g notes ws)
    (new : h ∉ notes.numbered.map (·.1)) :
    Write.Ensures (Write.marked W g write .tracking told use.shape use.value) ws fun bytes ws' =>
      ∃ notes', Noted W g notes' ws' ∧
        notes'.numbered = use.note (W.enter g levels use) notes.numbered ∧
          notes.numbered <+: notes'.numbered ∧ Reproduces W R g notes none notes'
            (Read.marked R read .tracking q.typed q.shape) bytes use.CopiedTo := by
  let notes₁ : Notes := { notes with numbered := notes.numbered ++ [(h, use.shape)] }
  have waiting : use.pending = some (h, use.shape) := by
    simp [Use.pending, tracked, value, Value.handle?]
  have fresh : h ∉ ws.seen.handles := noted.seen ▸ new
  have marking := SeenHandles.mark_new fresh
  rw [value]
  refine Write.ensures_marked marking (fun complete => absurd complete Bool.false_ne_true) fun _ => ?_
  rw [← value]
  refine (passes.typed reaches short met notes₁ _ (noted.number new use.shape)).mono ?_
  rintro bytes ws₂ ⟨notes₂, noted₂, numbered, begins, reads⟩
  refine ⟨notes₂, noted₂, ?_, (List.prefix_append ..).trans begins, ?_⟩
  · rw [numbered, Use.note_of_new value tracked new]
  · intro few copies st aligned
    have room : notes.numbered.length < 2 ^ 32 := by
      have count : (notes.numbered ++ [(h, use.shape)]).length ≤ 2 ^ 32 := Nat.le_trans begins.length_le few
      rw [List.length_append, List.length_singleton] at count
      exact count
    obtain ⟨number, aligned₁⟩ := aligned.reserve (h, use.shape) room
    refine Read.runsIf_marked_newRef ?_
    have slot : use.slot notes₁ = some st.slots.reserve.1 := by
      simp [Use.slot, waiting, notes₁, number]
    rw [← slot]
    refine (reads few copies _ (waiting ▸ aligned₁)).mono ?_
    rintro u st' ⟨made, aligned', ext, later⟩
    obtain ⟨c, member, tracked', same, -, rfl⟩ :=
      (later _ st'.graph (List.Subset.refl _) fun _ _ _ => rfl).2 h value
    have place : (notes₂.numbered.map (·.1))[st.slots.reserve.1]? = some c.node := by
      obtain ⟨rest, whole⟩ := begins
      rw [← whole, number, same]
      simp [notes₁]
    exact ⟨made, aligned'.fill noted₂.distinct member (tracked'.trans tracked) place, ext, later⟩

variable (use) in
/-- A value is conveyed behind its marker. -/
theorem marked (nullable : Bool) :
    Conveys W g (Write.marked W g write (.ofFlags nullable use.tracked) told use.shape use.value)
      (use.note (W.enter g levels use)) fun notes notes' bytes => Reproduces W R g notes none notes'
        (Read.marked R read (.ofFlags nullable use.tracked) q.typed q.shape) bytes use.CopiedTo := by
  cases tracked : use.tracked with
  | false => exact passes.marked_untracked reaches short met tracked nullable
  | true =>
    have mode : RefMode.ofFlags nullable true ≠ .none := nofun
    intro notes ws noted
    cases handle : use.value.handle? with
    | some h =>
      have value := Value.eq_handle_of_handle? handle
      by_cases known : h ∈ notes.numbered.map (·.1)
      · exact marked_known value tracked noted known
      · exact passes.marked_new reaches short met value tracked noted known
    | none =>
      refine Write.ensures_marked (SeenHandles.mark_scalar handle) (fun null => ?_) fun present => ?_
      · rw [if_pos null]
        exact ⟨notes, noted, (Use.note_of_scalar handle).symm, List.prefix_refl _,
          .takes (Read.takes_marked_null mode) fun all => Use.copiedTo_of_scalar handle all _⟩
      · rw [if_neg (by simp [present])]
        have waiting := Use.pending_of_scalar handle
        refine (passes.typed reaches short met notes _ noted).mono ?_
        rintro bytes ws₁ ⟨notes₁, noted₁, numbered, begins, reads⟩
        refine ⟨notes₁, noted₁, ?_, begins, fun few copies st aligned => ?_⟩
        · rw [numbered, W.enter_of_scalar g handle, Use.note_of_scalar handle]
        · simp only [Use.slot, waiting, Option.map_none] at reads
          exact Read.runsIf_marked_notNull mode (reads few copies st aligned)

end Passes

/-! ## Containers -/

namespace Environment

variable {W R : Environment} {g g' : Graph} {all : List Copy} {use : Use} {h : Handle}

/-- The nodes that get a number within a node are those of the values that are written of it. -/
theorem enter_handle (value : use.value = .handle h) (levels : Nat)
    (numbered : List (Handle × Shape)) : W.enter g (levels + 1) use numbered =
      ((W.uses use.shape (g.node h)).map (·.2)).foldl
        (fun numbered part => part.note (W.enter g levels part) numbered) numbered := by
  simp only [enter, value, List.foldl_map]

/-- What does not depend on the positions. -/
theorem map_mapIdx {α β γ : Type} {f : Nat → α → β} {k : β → γ} {m : α → γ} (l : List α)
    (same : ∀ i a, k (f i a) = m a) : (l.mapIdx f).map k = l.map m :=
  List.ext_getElem (by simp) fun i _ _ => by simp [same]

theorem map_uses_items {node : List Value → Node} (isItems : node = .list ∨ node = .set)
    (shape : Shape) (vs : List Value) :
    (W.uses shape (node vs)).map (·.2) = vs.map (W.elementUse shape.parts.1) := by
  rcases isItems with rfl | rfl <;> exact map_mapIdx vs fun _ _ => rfl

theorem map_uses_map (shape : Shape) (pairs : List (Value × Value)) :
    (W.uses shape (.map pairs)).map (·.2) = pairs.flatMap fun pair =>
      [W.elementUse shape.parts.1 pair.1, W.elementUse shape.parts.2 pair.2] := by
  have both := map_mapIdx (f := W.entryUses shape) (k := List.map (·.2)) (m := fun pair =>
    [W.elementUse shape.parts.1 pair.1, W.elementUse shape.parts.2 pair.2]) pairs fun _ _ => rfl
  rw [uses, List.map_flatten, both, List.flatMap_def]

/-- A list of copies is a faithful copy of a list. -/
theorem faithful_items {node : List Value → Node} (isItems : node = .list ∨ node = .set)
    {vs us : List Value} (here : g.node h = node vs)
    (copied : List.Forall₂ (fun v u => (W.elementUse use.shape.parts.1 v).CopiedTo all u) vs us)
    {place : Handle} (there : g'.node place = node us) :
    Copy.Faithful W R g g' all ⟨use.tracked, h, use.shape, place⟩ := by
  have uses : W.uses use.shape (node vs) =
      vs.mapIdx fun i v => (.item i, W.elementUse use.shape.parts.1 v) := by
    rcases isItems with rfl | rfl <;> rfl
  intro step step' part member counterpart k _
  dsimp only at member counterpart ⊢
  rw [here, uses] at member
  obtain ⟨i, lt, same⟩ := List.mem_mapIdx.1 member
  cases same
  cases counterpart.eq_item
  have lt' : i < us.length := copied.length_eq ▸ lt
  refine ⟨us[i], ?_, copied.get lt lt'⟩
  rw [there]
  rcases isItems with rfl | rfl <;> exact List.getElem?_eq_getElem lt'

/-- A map of copies is a faithful copy of a map. -/
theorem faithful_map {pairs pairs' : List (Value × Value)} (here : g.node h = .map pairs)
    (copied : List.Forall₂ (fun p p' =>
      (W.elementUse use.shape.parts.1 p.1).CopiedTo all p'.1 ∧
        (W.elementUse use.shape.parts.2 p.2).CopiedTo all p'.2) pairs pairs')
    {place : Handle} (there : g'.node place = .map pairs') :
    Copy.Faithful W R g g' all ⟨use.tracked, h, use.shape, place⟩ := by
  intro step step' part member counterpart k _
  dsimp only at member counterpart ⊢
  rw [here] at member
  obtain ⟨entry, listed, member⟩ := List.mem_flatten.1 member
  obtain ⟨i, lt, rfl⟩ := List.mem_mapIdx.1 listed
  have lt' : i < pairs'.length := copied.length_eq ▸ lt
  have found : pairs'[i]? = some pairs'[i] := List.getElem?_eq_getElem lt'
  obtain ⟨key, value⟩ := copied.get lt lt'
  rcases List.mem_cons.1 member with same | member
  · cases same
    cases counterpart.eq_key
    refine ⟨pairs'[i].1, ?_, key⟩
    rw [there, Node.follow?, found]
    rfl
  · cases List.mem_singleton.1 member
    cases counterpart.eq_value
    refine ⟨pairs'[i].2, ?_, value⟩
    rw [there, Node.follow?, found]
    rfl

end Environment

namespace Passes

variable {W R : Environment} {g : Graph} {levels : Nat} {write : WritePayload} {read : ReadPayload}
  (reaches : W.Reaches R g) (passes : Passes W R g levels write read)

include reaches passes

/-- An element is conveyed behind the marker that the header of all elements asks for. -/
theorem element {part part' : Option Shape}
    (met : (W.elementPlace part).Meets (R.elementPlace part')) (vs : List Value) {v : Value}
    (short : v.Short) :
    Conveys W g (Write.element W g write (W.elementHeader part vs) part v)
      ((W.elementUse part v).note (W.enter g levels (W.elementUse part v)))
      fun notes notes' bytes => Reproduces W R g notes none notes'
        (Read.element R read (W.elementHeader part vs) part') bytes (W.elementUse part v).CopiedTo := by
  have run := passes.marked reaches (W.elementUse part v) short met (vs.any Value.isNull)
  rw [← met.typed] at run
  exact run

variable {use : Use} {h : Handle} (value : use.value = .handle h) {typed : Bool} {q : Place}
  (met : (Place.mk typed use.shape).Meets q)

include value met

theorem items {node : List Value → Node} (isItems : node = .list ∨ node = .set) {vs : List Value}
    (here : g.node h = node vs) :
    Conveys W g (Write.items W g write use.shape vs) (W.enter g (levels + 1) use)
      fun notes notes' bytes => Reproduces W R g notes use.pending notes'
        (Read.items R read node q.shape (use.slot notes)) bytes use.CopiedTo := by
  obtain ⟨metPart, -⟩ := Environment.meets_parts reaches.writer.compatible reaches.reader.compatible met
  have count : vs.length < 2 ^ 32 := by
    have bound := reaches.sized.lengths h
    rw [here] at bound
    rcases isItems with rfl | rfl <;> exact bound
  have short : ∀ v ∈ vs, v.Short := by
    have parts := reaches.sized.parts h
    rw [here] at parts
    rcases isItems with rfl | rfl <;> exact parts
  intro notes ws noted
  refine Write.ensures_items ((Conveys.many (fun v member =>
    passes.element reaches metPart vs (short v member)) notes ws noted).mono ?_)
  rintro bytes ws' ⟨notes', noted', numbered, begins, reads⟩
  refine ⟨notes', noted', ?_, begins, fun few copies st aligned => ?_⟩
  · rw [numbered, Environment.enter_handle value, here, Environment.map_uses_items isItems,
      List.foldl_map]
  · refine Read.runsIf_items count (reaches.unlimited ▸ SizeLimits.admits_unlimited _ _)
      (Environment.known_of_declared metPart.typed) ?_
    exact reads.closed value (fun _ _ _ _ copied there =>
      Environment.faithful_items isItems here copied there) few aligned

theorem entries {pairs : List (Value × Value)} (here : g.node h = .map pairs) :
    Conveys W g (Write.entries W g write use.shape pairs) (W.enter g (levels + 1) use)
      fun notes notes' bytes => Reproduces W R g notes use.pending notes'
        (Read.entries R read q.shape (use.slot notes)) bytes use.CopiedTo := by
  obtain ⟨metKeys, metValues⟩ :=
    Environment.meets_parts reaches.writer.compatible reaches.reader.compatible met
  have count : pairs.length < 2 ^ 32 := by
    have bound := reaches.sized.lengths h
    rwa [here] at bound
  have short : ∀ pair ∈ pairs, pair.1.Short ∧ pair.2.Short := by
    have parts := reaches.sized.parts h
    rw [here] at parts
    exact Node.forall_contents_map.1 parts
  intro notes ws noted
  refine Write.ensures_entries ((Conveys.many (fun pair member =>
    (passes.element reaches metKeys (pairs.map (·.1)) (short pair member).1).pair
      (passes.element reaches metValues (pairs.map (·.2)) (short pair member).2)) notes ws
        noted).mono ?_)
  rintro bytes ws' ⟨notes', noted', numbered, begins, reads⟩
  refine ⟨notes', noted', ?_, begins, fun few copies st aligned => ?_⟩
  · rw [numbered, Environment.enter_handle value, here, Environment.map_uses_map,
      List.foldl_flatMap]
    rfl
  · refine Read.runsIf_entries count (reaches.unlimited ▸ SizeLimits.admits_unlimited _ _)
      (Environment.known_of_declared metKeys.typed) (Environment.known_of_declared metValues.typed) ?_
    exact reads.closed value (fun _ _ _ _ copied there =>
      Environment.faithful_map here copied there) few aligned

end Passes

end Graphwire
