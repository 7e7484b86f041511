import Graphwire.Proofs.StableNumbers

/-!
# Readers that recall what was written

A reader that is told enough takes all that was written. Which values it makes does not matter for that:
it has something behind every number that the writer gave, it keeps the structs that were told under
their numbers, and it goes down by the same levels. So a step of reading takes what the step of writing
wrote, and recalls then what the writer has noted by then. What it needs of a struct is that each field
is read behind the marker and at a place that suit what is written of the field, whether it is read as a
field of the reader's own struct or by the entry of the definition.
-/

namespace Graphwire

set_option autoImplicit false

open Read (Runs)

/-! ## What a reader is told -/

/-- Whether what the definition of a struct tells can be read: what it counts fits, and containers nest
at most as deep as a reader follows. -/
structure StructType.Readable (s : StructType) : Prop extends s.Brief where
  nesting : ∀ f ∈ s.fields, f.toldShape.nesting ≤ FieldType.maxDepth

theorem StructType.Described.tellable_of_readable {s : StructType} (described : s.Described true)
    (readable : s.Readable) :
    (StructType.definitionOf s.id s.package s.typeName s.fields).Tellable FieldType.maxDepth :=
  described.tellable_of_told readable.ident readable.definition readable.tags readable.nesting

/-- A reader can make something of a definition that can be read. -/
theorem StructType.Described.legible {s : StructType} (described : s.Described true)
    (readable : s.Readable) : s.Legible := by
  have tellable := described.tellable_of_readable readable
  obtain ⟨header, after, defined⟩ := described.defined tellable
  obtain ⟨p, run⟩ := defined.reads.read.yields tellable 0 []
  exact ⟨header, after, 0, [], _, _, defined, run⟩

/-- Whether a value may be written of a graph: at the root, within a node, or for a field that a record
does not have. -/
def Graph.Shows (g : Graph) (root v : Value) : Prop :=
  v = root ∨ v = .null ∨ ∃ h, v ∈ (g.node h).contents

theorem Graph.shows_value {g : Graph} {root : Value} {h : Handle} {r : Record}
    (here : g.node h = .record r) (name : String) : g.Shows root (r.value name) := by
  unfold Record.value
  cases set : r.get? name with
  | none => exact .inr (.inl rfl)
  | some v => exact .inr (.inr ⟨h, here ▸ List.mem_map_of_mem (mem_of_lookup set)⟩)

theorem Graph.Sized.short_of_shows {g : Graph} {root v : Value} (sized : g.Sized) (short : root.Short)
    (shows : g.Shows root v) : v.Short := by
  rcases shows with rfl | rfl | ⟨h, member⟩
  · exact short
  · exact trivial
  · exact sized.parts h v member

/-- What a reader makes of a type that was written: of a struct what the definition tells of it. -/
def Registry.heard (R : Registry) : WireType → WireType
  | .struct s false => .peer (R.peer s)
  | wire => wire

/-- Whether what is written of a field is read behind a marker at a place. -/
structure Field.MetBy (W : Environment) (f : Field) (mode : RefMode) (q : Place) : Prop where
  mode : mode = f.refMode
  place : (W.fieldPlace f).Meets q

/-- Whether each field of our struct can get its default where a peer leaves it out. -/
def PeerStruct.Fillable (p : PeerStruct) : Prop :=
  ∀ ours, p.own = some ours → ∀ own ∈ ours.fields, ∃ d, own.missingValue = .ok d

/-- The fields that it lacks are of our struct. -/
theorem PeerStruct.Fillable.lacking {p : PeerStruct} (defaults : p.Fillable) {own : Field}
    (lacking : own ∈ p.lacking) : ∃ d, own.missingValue = .ok d := by
  unfold PeerStruct.lacking at lacking
  cases known : p.own with
  | none =>
    rw [known] at lacking
    exact absurd lacking List.not_mem_nil
  | some ours =>
    rw [known] at lacking
    obtain ⟨i, -, found⟩ := List.mem_filterMap.1 lacking
    exact defaults ours known own (List.mem_of_getElem? found)

/-- Whether what a reader makes of a struct suits what is written of its records: the reader's own fields
suit those that are written if its struct has the same definition, and else the entries do, and the
reader's defaults can be made. -/
inductive PeerStruct.Suits (W R : Environment) (s : StructType) (p : PeerStruct) : Prop where
  | own {ours : StructType} (sameLayout : p.sameLayout = true) (own : p.own = some ours)
      (known : R.registry.HasStruct ours)
      (fields : List.Forall₂ (fun f own => f.MetBy W own.refMode (R.fieldPlace own)) s.fields
        ours.fields) : Suits W R s p
  | entries (differs : p.sameLayout = false ∨ p.own = none)
      (fields : List.Forall₂ (fun f e => f.MetBy W e.refMode ⟨e.typed, e.shape⟩) s.fields p.fields)
      (defaults : p.Fillable) : Suits W R s p

/-- The entries of a definition suit what is written of a struct that the reader does not have. -/
theorem StructType.Sendable.suits_unknown {W R : Environment} (compatible : W.config.compatible = true)
    {s : StructType} (sendable : s.Sendable) {header : Int}
    (unknown : (R.registry.peerOf s header).own = none) (whole : ∀ f ∈ s.fields, f.Whole) :
    (R.registry.peerOf s header).Suits W R s := by
  obtain ⟨lookup, registered, described⟩ := sendable.described.fields
  refine .entries (.inr unknown) ?_ fun ours known => by cases unknown.symm.trans known
  rw [(Registry.peerOf_unknown unknown).2.2]
  refine List.forall₂_map_right_iff.2 (List.forall₂_same.2 fun f member => ?_)
  exact ⟨(described f member).refMode_entry none none,
    (described f member).meets_entry registered compatible (whole f member)⟩

/-- Whether a reader is told all that it needs of a value that a writer writes. It can read the
definitions of structs, which are told apart by their headers, and makes of them what suits; it must not
know structs that it does not have; it has the enumerations whose members it meets, or takes their names
for them; and all that is counted fits the format. -/
structure Environment.Instructs (W R : Environment) (g : Graph) (root : Value) : Prop where
  writer : W.Describing
  reader : R.Describing
  unlimited : R.config.limits = .unlimited
  readable : ∀ s, W.Sends g s → s.Readable
  apart : HeadersApart (W.Sends g)
  suits : ∀ s, W.Sends g s → (R.registry.peer s).Suits W R s
  admitted : ∀ r s, W.Sends g s → W.structFor? r = some s →
    (W.registry.struct? r.typeName = none → W.config.requireRegistration = false) →
      (R.registry.peer s).own = none → R.config.requireRegistration = false
  enums : ∀ name ordinal e, g.Shows root (.enum name ordinal) → W.registry.enum? name = some e →
    R.registry.enum? name = some e ∧ ∀ id, e.id = some id → id < 2 ^ 32
  unknown : ∀ name ordinal, g.Shows root (.enum name ordinal) → W.registry.enum? name = none →
    W.config.requireRegistration = false →
      R.config.requireRegistration = false ∧ R.registry.enum? name = none ∧ R.registry.Recovers name
  sized : g.Sized
  short : root.Short
  nodes : ∀ hs : List Handle, hs.Nodup → (∀ h ∈ hs, g.Shows root (.handle h)) → hs.length ≤ 2 ^ 32
  types : g.typeNames.eraseDups.length ≤ 2 ^ 31

namespace Environment.Instructs

variable {W R : Environment} {g : Graph} {root : Value} (instructs : W.Instructs R g root)

include instructs

theorem distinguished : Distinguished (W.Sends g) :=
  ⟨fun s sends => (instructs.writer.sendable_of_sends sends).described.defined_of_brief
    (instructs.readable s sends).toBrief, instructs.apart⟩

/-- What is told of an enumeration leads to it. -/
theorem leads_enum {name : String} {ordinal : Nat} {e : EnumType}
    (shows : g.Shows root (.enum name ordinal)) (found : W.registry.enum? name = some e) :
    R.Leads e.id e.package e.typeName name := by
  obtain ⟨found', small⟩ := instructs.enums name ordinal e shows found
  cases ident : e.id with
  | some id => exact small id ident
  | none =>
    refine Environment.leads_of_qualify (instructs.reader.sound.enumName found').parts ?_
    rw [instructs.unlimited]
    exact SizeLimits.admitsText_unlimited (instructs.sized.short_of_shows instructs.short shows).1

end Environment.Instructs

/-! ## What a reader recalls -/

/-- Whether a reader recalls what a writer noted: it has something behind each number, except maybe
that of a node that waits, and keeps the structs that were told. -/
structure Recalls (W R : Environment) (g : Graph) (notes : Notes) (slot : Option Nat)
    (st : ReadState) : Prop where
  count : st.slots.values.size = notes.numbered.length
  filled : ∀ number, number < notes.numbered.length → some number ≠ slot →
    ∃ v, st.slots.values[number]? = some (some v)
  told : Told (W.Sends g) R.registry notes.told st

namespace Recalls

variable {W R : Environment} {g : Graph} {notes : Notes} {slot : Option Nat} {st st' : ReadState}

theorem initial (W R : Environment) (g : Graph) (bytes : List UInt8) :
    Recalls W R g ⟨[], []⟩ none (.ofBytes bytes .empty) where
  count := rfl
  filled _ none := absurd none (Nat.not_lt_zero _)
  told := .initial ..

/-- Nothing else of a reader matters but its numbers and what it was told. -/
theorem moved (recalls : Recalls W R g notes slot st) (slots : st'.slots = st.slots)
    (received : st'.received = st.received) (cache : st'.cache = st.cache) :
    Recalls W R g notes slot st' where
  count := slots ▸ recalls.count
  filled := slots ▸ recalls.filled
  told := ⟨recalls.told.members, received ▸ recalls.told.received, cache ▸ recalls.told.cache⟩

/-- More structs were told. -/
theorem retold (recalls : Recalls W R g notes slot st) {told : List StructType}
    (keeps : Told (W.Sends g) R.registry told st') (slots : st'.slots = st.slots) :
    Recalls W R g { notes with told } slot st' where
  count := slots ▸ recalls.count
  filled := slots ▸ recalls.filled
  told := keeps

theorem waits (recalls : Recalls W R g notes none st) (slot : Option Nat) :
    Recalls W R g notes slot st :=
  { recalls with filled := fun number lt _ => recalls.filled number lt nofun }

/-- The next number is reserved for a node that waits. -/
theorem reserve (recalls : Recalls W R g notes none st) (entry : Handle × Shape)
    (few : notes.numbered.length < 2 ^ 32) :
    Recalls W R g { notes with numbered := notes.numbered ++ [entry] } (some st.slots.reserve.1)
      { st with slots := st.slots.reserve.2 } where
  count := by
    show (st.slots.values.push none).size = _
    rw [Array.size_push, recalls.count, List.length_append, List.length_singleton]
  filled number lt other := by
    rw [List.length_append, List.length_singleton] at lt
    have next : st.slots.reserve.1 = notes.numbered.length :=
      (Slots.number_reserve (recalls.count ▸ few)).trans recalls.count
    have ne : number ≠ notes.numbered.length := fun same => other (congrArg some (same.trans next.symm))
    obtain ⟨v, found⟩ := recalls.filled number (by omega) nofun
    refine ⟨v, ?_⟩
    show (st.slots.values.push none)[number]? = _
    rw [Array.getElem?_push, if_neg (recalls.count ▸ ne), found]
  told := ⟨recalls.told.members, recalls.told.received, recalls.told.cache⟩

/-- The node that waits is put behind its number. -/
theorem fill {number : Nat} (recalls : Recalls W R g notes (some number) st) (v : Value) :
    Recalls W R g notes none { st with slots := st.slots.fill number v } where
  count := by
    show (st.slots.values.setIfInBounds number (some v)).size = _
    rw [Array.size_setIfInBounds, recalls.count]
  filled other lt _ := by
    show ∃ w, (st.slots.values.setIfInBounds number (some v))[other]? = _
    by_cases same : number = other
    · subst same
      exact ⟨v, Array.getElem?_setIfInBounds_self_of_lt (recalls.count.symm ▸ lt)⟩
    · rw [Array.getElem?_setIfInBounds_ne same]
      exact recalls.filled other lt fun again => same (Option.some.inj again).symm
  told := ⟨recalls.told.members, recalls.told.received, recalls.told.cache⟩

/-- A node that was added no longer waits. -/
theorem opened (recalls : Recalls W R g notes slot st) (n : Node) :
    Recalls W R g notes none (st.opened n slot) := by
  cases slot with
  | none => exact recalls.moved rfl rfl rfl
  | some number => exact (recalls.fill (.handle ⟨st.graph.size⟩)).moved rfl rfl rfl

end Recalls

namespace Read

/-- Whether a reader that recalls what a writer noted takes the bytes, and recalls later notes then. -/
def Resumes (W R : Environment) (g : Graph) {α : Type} (before after : Notes) (slot : Option Nat)
    (m : Read α) (bytes : List UInt8) : Prop :=
  ∀ st, Recalls W R g before slot st → Runs m st bytes fun _ st' => Recalls W R g after slot st'

namespace Resumes

variable {W R : Environment} {g : Graph} {α β : Type} {before mid after : Notes} {slot : Option Nat}
  {m : Read α} {f : α → Read β} {bytes front back : List UInt8}

theorem takes {a : α} (hm : Takes m bytes a) : Resumes W R g before before slot m bytes :=
  fun _ recalls => hm.runs recalls

theorem pure (a : α) : Resumes W R g before before slot (pure a) [] := .takes (.pure a)

theorem takesThen {a : α} (hm : Takes m front a) (hf : Resumes W R g before after slot (f a) back) :
    Resumes W R g before after slot (m >>= f) (front ++ back) :=
  fun st recalls => .after hm (hf st recalls)

theorem bind (hm : Resumes W R g before mid slot m front)
    (hf : ∀ a, Resumes W R g mid after slot (f a) back) :
    Resumes W R g before after slot (m >>= f) (front ++ back) :=
  fun st recalls => (hm st recalls).bind fun a st' recalls' => hf a st' recalls'

/-- Then something that reads nothing. -/
theorem «then» (hm : Resumes W R g before after slot m bytes)
    (hf : ∀ a, Resumes W R g after after slot (f a) []) :
    Resumes W R g before after slot (m >>= f) bytes := by
  rw [← List.append_nil bytes]
  exact hm.bind hf

theorem setField (h : Handle) (name : String) (v : Value) :
    Resumes W R g before before slot (setField h name v) [] := by
  intro st recalls
  have run (p : Reader) : Read.setField h name v { st with reader := p } =
      .ok () { { st with graph := st.graph.withField h name v } with reader := p } :=
    setField_apply h name v _
  exact .silent run (recalls.moved rfl rfl rfl)

theorem noteNull (h : Handle) (name : String) :
    Resumes W R g before before slot (noteNull h name) [] := by
  intro st recalls
  have run (p : Reader) : Read.noteNull h name { st with reader := p } =
      .ok () { { st with nulls := st.nulls ++ [(h, name)] } with reader := p } := rfl
  exact .silent run (recalls.moved rfl rfl rfl)

theorem noteDropped : Resumes W R g before before slot noteDropped [] := by
  intro st recalls
  have run (p : Reader) : Read.noteDropped { st with reader := p } =
      .ok () { { st with dropped := st.dropped + 1 } with reader := p } := rfl
  exact .silent run (recalls.moved rfl rfl rfl)

/-- A default is filled in if it can be made. -/
theorem fillMissing {own : Field} (default : ∃ d, own.missingValue = .ok d) (h : Handle) :
    Resumes W R g before before slot (fillMissing h own) [] := by
  intro st recalls
  obtain ⟨d, made⟩ := default
  unfold Read.fillMissing
  rw [made]
  cases d with
  | none => exact .pure recalls
  | some t =>
    let copied : ReadState := { st with
      graph := (t.instantiate st.graph).2, filled := st.filled ++ [⟨h, own.name, t, st.graph.size⟩] }
    have set : Resumes W R g before before slot
        (Read.setField h own.name (t.root.shift st.graph.size)) [] := setField _ _ _
    exact fun p rest => set copied (recalls.moved rfl rfl rfl) p rest

theorem eachMissing {owns : List Field} (defaults : ∀ own ∈ owns, ∃ d, own.missingValue = .ok d)
    (h : Handle) : Resumes W R g before before slot (Read.each (Read.fillMissing h) owns) [] := by
  induction owns with
  | nil => exact .pure _
  | cons own owns ih =>
    obtain ⟨here, there⟩ := List.forall_mem_cons.1 defaults
    exact (fillMissing here h).then fun _ => ih there

/-- What is read for a field of a peer is kept or dropped. -/
theorem keepField {p : PeerStruct} (defaults : p.Fillable) (h : Handle) (f : PeerField) (v : Value) :
    Resumes W R g before before slot (keepField p h f v) [] := by
  unfold Read.keepField
  split
  · rename_i ours own known target
    split
    · refine (noteNull h own.name).then fun _ => ?_
      split
      · exact .pure _
      · refine fillMissing (defaults ours known own ?_) h
        obtain ⟨i, -, found⟩ := Option.bind_eq_some_iff.1 target
        rw [known] at found
        exact List.mem_of_getElem? found
    · exact .setField h own.name v
  · split
    · exact .pure _
    · exact .setField h f.name v
  · exact .noteDropped

end Resumes

end Read

/-! ## What is written is taken -/

/-- Whether a writer of a graph remembers what the notes say, and numbered nothing but nodes of it. -/
structure Recorded (W : Environment) (g : Graph) (root : Value) (notes : Notes) (ws : WriteState) :
    Prop extends Noted W g notes ws where
  shown : ∀ h ∈ notes.numbered.map (·.1), g.Shows root (.handle h)

/-- Whether what a writer of a graph writes can be read by a reader that recalls what it noted. -/
def Returns (W : Environment) (g : Graph) (root : Value) (write : Write (List UInt8))
    (reads : Notes → Notes → List UInt8 → Prop) : Prop :=
  ∀ notes ws, Recorded W g root notes ws → Write.Ensures write ws fun bytes ws' =>
    ∃ notes', Recorded W g root notes' ws' ∧ reads notes notes' bytes

namespace Returns

open Read (Resumes)

variable {W R : Environment} {g : Graph} {root : Value} {α β γ : Type}
  {write write' : Write (List UInt8)} {reads reads' : Notes → Notes → List UInt8 → Prop}

theorem mono (h : Returns W g root write reads)
    (weaker : ∀ notes notes' bytes, reads notes notes' bytes → reads' notes notes' bytes) :
    Returns W g root write reads' := by
  intro notes ws recorded
  refine (h notes ws recorded).mono ?_
  rintro bytes ws' ⟨notes', recorded', read⟩
  exact ⟨notes', recorded', weaker _ _ _ read⟩

theorem pure {bytes : List UInt8} (read : ∀ notes, reads notes notes bytes) :
    Returns W g root (Pure.pure bytes) reads :=
  fun notes _ recorded => .pure ⟨notes, recorded, read notes⟩

theorem throw (e : Error) : Returns W g root (throw e) reads := fun _ _ _ => .throw e

/-- Things that are written one after the other are taken one after the other. -/
theorem many {write : α → Write (List UInt8)} {one : Read β} {items : List α}
    (step : ∀ a ∈ items, Returns W g root (write a) fun notes notes' bytes =>
      Resumes W R g notes notes' none one bytes) :
    Returns W g root (Write.concat write items) fun notes notes' bytes =>
      Resumes W R g notes notes' none (Read.many one items.length) bytes := by
  induction items with
  | nil => exact .pure fun _ => .pure _
  | cons a items ih =>
    obtain ⟨here, there⟩ := List.forall_mem_cons.1 step
    intro notes ws recorded
    refine (here notes ws recorded).bind ?_
    rintro front ws₁ ⟨notes₁, recorded₁, first⟩
    refine (ih there notes₁ ws₁ recorded₁).bind ?_
    rintro back ws₂ ⟨notes₂, recorded₂, others⟩
    exact .pure ⟨notes₂, recorded₂, first.bind fun _ => others.then fun _ => .pure _⟩

/-- Two things are written one after the other, and taken as a pair. -/
theorem pair {one : Read α} {other : Read β}
    (first : Returns W g root write fun notes notes' bytes =>
      Resumes W R g notes notes' none one bytes)
    (second : Returns W g root write' fun notes notes' bytes =>
      Resumes W R g notes notes' none other bytes) :
    Returns W g root (do return (← write) ++ (← write')) fun notes notes' bytes =>
      Resumes W R g notes notes' none (do
        let a ← one
        let b ← other
        return (a, b)) bytes := by
  intro notes ws recorded
  refine (first notes ws recorded).bind ?_
  rintro front ws₁ ⟨notes₁, recorded₁, read₁⟩
  refine (second notes₁ ws₁ recorded₁).bind ?_
  rintro back ws₂ ⟨notes₂, recorded₂, read₂⟩
  exact .pure ⟨notes₂, recorded₂, read₁.bind fun _ => read₂.then fun _ => .pure _⟩

/-- Fields that are written one after the other are taken one after the other. -/
theorem each {write : α → Write (List UInt8)} {one : β → Handle → Read Unit} {S : α → β → Prop}
    {xs : List α} {ys : List β} (related : List.Forall₂ S xs ys)
    (step : ∀ x y, x ∈ xs → S x y → Returns W g root (write x) fun notes notes' bytes =>
      ∀ h, Resumes W R g notes notes' none (one y h) bytes) :
    Returns W g root (Write.concat write xs) fun notes notes' bytes =>
      ∀ h, Resumes W R g notes notes' none (Read.each (one · h) ys) bytes := by
  induction related with
  | nil => exact .pure fun _ _ => .pure _
  | @cons x y xs ys first _ ih =>
    have others := ih fun x y member => step x y (List.mem_cons_of_mem _ member)
    intro notes ws recorded
    refine (step x y List.mem_cons_self first notes ws recorded).bind ?_
    rintro front ws₁ ⟨notes₁, recorded₁, here⟩
    refine (others notes₁ ws₁ recorded₁).bind ?_
    rintro back ws₂ ⟨notes₂, recorded₂, there⟩
    exact .pure ⟨notes₂, recorded₂, fun h => (here h).bind fun _ => there h⟩

end Returns


/-! ## Types and values -/

/-- Whether what a writer of payloads writes is taken by a reader of payloads, at any place that meets
the one where it was written and whatever number the node waits for. -/
def Answers (W R : Environment) (g : Graph) (root : Value) (write : WritePayload) (read : ReadPayload) :
    Prop :=
  ∀ (hasType : Bool) (shape : Shape) (q : Place) (v : Value) (wire : WireType), g.Shows root v →
    (Place.mk hasType shape).Meets q → W.SentAs g v wire →
      Returns W g root (write wire shape v) fun notes notes' bytes => ∀ slot,
        Read.Resumes W R g notes notes' slot (read (R.registry.heard wire) q.shape slot) bytes

namespace Environment.Instructs

open Read (Resumes)

variable {W R : Environment} {g : Graph} {root v : Value} {notes : Notes} {ws : WriteState}
  (instructs : W.Instructs R g root) (shows : g.Shows root v)

include instructs

theorem few_told {told : List StructType} (noted : Noted W g { notes with told } ws) :
    told.length ≤ 2 ^ 31 :=
  Nat.le_trans (instructs.writer.length_le_typeNames (fun s member => (noted.known s member).1)
    noted.once) instructs.types

include shows

/-- The type of a value is read as what the reader makes of the type that was written. -/
theorem ensures_typeInfo (recorded : Recorded W g root notes ws) :
    Write.Ensures (Write.typeInfo W g v) ws fun i ws' => W.SentAs g v i.2 ∧
      ∃ told, Recorded W g root { notes with told } ws' ∧ ∀ slot st, Recalls W R g notes slot st →
        Runs (Read.typeInfo R) st i.1 fun wire st' => wire = R.registry.heard i.2 ∧
          Recalls W R g { notes with told } slot st' := by
  refine (Write.ensures_typeInfo_introduces recorded.toNoted instructs.writer).mono ?_
  rintro i ws' ⟨told, introduces, noted⟩
  have recorded' : Recorded W g root { notes with told } ws' := ⟨noted, recorded.shown⟩
  cases introduces with
  | @record _ r s isRecord written admitted unique =>
    have sends := Environment.sends_of_asRecord? isRecord written
    have sendable := (instructs.writer.cases_structFor? written).2.1
    refine ⟨.record isRecord written, _, recorded', fun slot st recalls => ?_⟩
    refine ((Read.runsIf_structInfo instructs.distinguished sends
      (fun _ => sendable.described.tellable_of_readable (instructs.readable s sends))
      (fun _ absent => instructs.admitted r s sends written admitted absent) sendable.kind
      recalls.told unique (instructs.few_told noted)).runs trivial).mono ?_
    rintro wire st' ⟨rfl, -, keeps, -, slots⟩
    exact ⟨rfl, recalls.retold keeps slots⟩
  | @«enum» name ordinal e found =>
    have found' := (instructs.enums name ordinal e shows found).1
    exact ⟨.enum .., _, recorded', fun slot st recalls =>
      (Read.takes_enumInfo instructs.reader.sound found' (instructs.leads_enum shows found)).runs
        ⟨rfl, recalls⟩⟩
  | @unknownEnum name ordinal unknown lenient =>
    obtain ⟨admits, unregistered, qualified, noStruct⟩ :=
      instructs.unknown name ordinal shows unknown lenient
    have unnamed : R.registry.named? name = none := by simp [Registry.named?, noStruct, unregistered]
    have short := instructs.sized.short_of_shows instructs.short shows
    have leads := Environment.leads_of_qualify qualified
      (instructs.unlimited ▸ SizeLimits.admitsText_unlimited short.1)
    exact ⟨.enum .., _, recorded', fun slot st recalls =>
      (Read.takes_unknownEnumInfo admits unnamed leads).runs ⟨rfl, recalls⟩⟩
  | builtin inferred =>
    obtain ⟨small, builtin⟩ := Graph.isWireBuiltin_of_inferType? inferred
    exact ⟨.builtin _, _, recorded', fun slot st recalls =>
      (Read.takes_builtinInfo small builtin).runs ⟨rfl, recalls⟩⟩

end Environment.Instructs

namespace Answers

open Read (Resumes)

variable {W R : Environment} {g : Graph} {root : Value} {write : WritePayload} {read : ReadPayload}
  (instructs : W.Instructs R g root) (answers : Answers W R g root write read)

section

variable {hasType : Bool} {shape : Shape} {q : Place} {v : Value} (shows : g.Shows root v)
  (met : (Place.mk hasType shape).Meets q)

include instructs answers shows met

/-- A value is taken with its type, told or not. -/
theorem typed : Returns W g root (Write.typed W g write hasType shape v)
    fun notes notes' bytes => ∀ slot,
      Resumes W R g notes notes' slot (Read.typed R read q.typed q.shape slot) bytes := by
  intro notes ws recorded
  have same : hasType = q.typed := met.typed
  simp only [Read.typed_eq, ← same]
  unfold Write.typed
  cases told : hasType with
  | true =>
    refine (instructs.ensures_typeInfo shows recorded).bind ?_
    rintro ⟨info, wire⟩ ws₁ ⟨sentAs, told', recorded₁, reads⟩
    refine (answers hasType shape q v wire shows met sentAs _ ws₁ recorded₁).bind ?_
    rintro bytes ws₂ ⟨notes₂, recorded₂, payload⟩
    refine .pure ⟨notes₂, recorded₂, fun slot st recalls => (reads slot st recalls).bind ?_⟩
    rintro _ st₁ ⟨rfl, recalls₁⟩
    exact payload slot st₁ recalls₁
  | false =>
    refine Write.Ensures.bind (Q := fun wire ws' => ws' = ws ∧ W.declaredType shape = .ok wire)
      (.lift fun _ declared => ⟨rfl, declared⟩) ?_
    rintro wire ws' ⟨rfl, declared⟩
    obtain ⟨t, rfl⟩ := Environment.declaredType_builtin (met.declared told).2 declared
    refine (answers hasType shape q v _ shows met (.builtin t) notes _ recorded).mono ?_
    rintro bytes ws₁ ⟨notes₁, recorded₁, payload⟩
    have declared' := (Environment.declaredType_of_meets (R := R) met told).trans declared
    exact ⟨notes₁, recorded₁, fun slot => .takesThen (.check declared') (payload slot)⟩

omit answers met shows in
/-- A node with a number is taken as the number. -/
theorem marked_known {h : Handle} {notes : Notes} {ws : WriteState}
    (recorded : Recorded W g root notes ws) (known : h ∈ notes.numbered.map (·.1)) :
    Write.Ensures (Write.marked W g write .tracking hasType shape (.handle h)) ws fun bytes ws' =>
      ∃ notes', Recorded W g root notes' ws' ∧
        Resumes W R g notes notes' none (Read.marked R read .tracking q.typed q.shape) bytes := by
  obtain ⟨number, place, marking⟩ := SeenHandles.mark_known (recorded.seen ▸ known)
  refine Write.ensures_marked marking (fun _ => ⟨notes, recorded, fun st recalls => ?_⟩) nofun
  rw [recorded.seen] at place
  have lt := (List.getElem?_eq_some_iff.1 place).1
  have few := instructs.nodes _ recorded.distinct recorded.shown
  rw [List.length_map] at lt few
  obtain ⟨w, found⟩ := recalls.filled number lt nofun
  exact Read.runs_marked_ref (Nat.lt_of_lt_of_le lt few) found recalls

/-- A new node gets the next number before it is taken. -/
theorem marked_new {h : Handle} (value : v = .handle h) {notes : Notes} {ws : WriteState}
    (recorded : Recorded W g root notes ws) (new : h ∉ notes.numbered.map (·.1)) :
    Write.Ensures (Write.marked W g write .tracking hasType shape v) ws fun bytes ws' =>
      ∃ notes', Recorded W g root notes' ws' ∧
        Resumes W R g notes notes' none (Read.marked R read .tracking q.typed q.shape) bytes := by
  have fresh : h ∉ ws.seen.handles := recorded.seen ▸ new
  have marking := SeenHandles.mark_new fresh
  rw [← value] at marking
  refine Write.ensures_marked marking (fun complete => absurd complete Bool.false_ne_true) fun _ => ?_
  have recorded₁ : Recorded W g root { notes with numbered := notes.numbered ++ [(h, shape)] }
      { ws with seen := ⟨ws.seen.handles ++ [h]⟩ } := by
    refine ⟨recorded.number new shape, fun k member => ?_⟩
    rw [List.map_append, List.map_singleton] at member
    rcases List.mem_append.1 member with old | last
    · exact recorded.shown k old
    · rw [List.mem_singleton.1 last, ← value]
      exact shows
  refine (answers.typed instructs shows met _ _ recorded₁).mono ?_
  rintro bytes ws₂ ⟨notes₂, recorded₂, reads⟩
  have few : notes.numbered.length < 2 ^ 32 := by
    have count := instructs.nodes _ recorded₁.distinct recorded₁.shown
    rw [List.length_map, List.length_append, List.length_singleton] at count
    exact count
  refine ⟨notes₂, recorded₂, fun st recalls => Read.runs_marked_newRef ?_⟩
  exact (reads _ _ (recalls.reserve (h, shape) few)).mono fun w st' recalls' => recalls'.fill w

/-- A value is taken behind its marker. -/
theorem marked (mode : RefMode) : Returns W g root (Write.marked W g write mode hasType shape v)
    fun notes notes' bytes =>
      Resumes W R g notes notes' none (Read.marked R read mode q.typed q.shape) bytes := by
  have whole := answers.typed instructs shows met
  intro notes ws recorded
  by_cases tracked : mode = .tracking
  · subst tracked
    cases handle : v.handle? with
    | some h =>
      have value := Value.eq_handle_of_handle? handle
      by_cases known : h ∈ notes.numbered.map (·.1)
      · rw [value] at shows ⊢
        exact marked_known instructs recorded known
      · exact answers.marked_new instructs shows met value recorded known
    | none =>
      refine Write.ensures_marked (SeenHandles.mark_scalar handle) (fun null => ?_) fun present => ?_
      · rw [if_pos null]
        exact ⟨notes, recorded, .takes (Read.takes_marked_null (by decide))⟩
      · rw [if_neg (by simp [present])]
        refine (whole notes _ recorded).mono ?_
        rintro bytes ws' ⟨notes', recorded', reads⟩
        exact ⟨notes', recorded', fun st recalls =>
          Read.runs_marked_notNull (by decide) (reads none st recalls)⟩
  · refine Write.ensures_marked_untracked tracked (fun _ markers => ?_) fun _ =>
      (whole notes ws recorded).mono ?_
    · subst markers
      exact ⟨notes, recorded, .takes (Read.takes_marked_null (by decide))⟩
    · rintro bytes ws' ⟨notes', recorded', reads⟩
      refine ⟨fun markers => ⟨notes', recorded', fun st recalls => ?_⟩, fun plain => ?_⟩
      · subst markers
        exact Read.runs_marked_notNull (by decide) (reads none st recalls)
      · subst plain
        exact ⟨notes', recorded', reads none⟩

end

/-! ### Containers -/

section

include instructs answers

/-- An element is taken behind the marker that the header of all elements asks for. -/
theorem element {part part' : Option Shape} (met : (W.elementPlace part).Meets (R.elementPlace part'))
    (vs : List Value) {v : Value} (shows : g.Shows root v) :
    Returns W g root (Write.element W g write (W.elementHeader part vs) part v)
      fun notes notes' bytes => Resumes W R g notes notes' none
        (Read.element R read (W.elementHeader part vs) part') bytes := by
  have marked := answers.marked instructs shows met (W.elementHeader part vs).refMode
  have typed : (R.elementPlace part').typed = !(W.elementHeader part vs).declared := met.typed.symm
  rw [typed] at marked
  exact marked

variable {hasType : Bool} {shape : Shape} {q : Place} (met : (Place.mk hasType shape).Meets q)
  {h : Handle}

include met

theorem items {node : List Value → Node} (isItems : node = .list ∨ node = .set) {vs : List Value}
    (here : g.node h = node vs) :
    Returns W g root (Write.items W g write shape vs) fun notes notes' bytes => ∀ slot,
      Resumes W R g notes notes' slot (Read.items R read node q.shape slot) bytes := by
  obtain ⟨metPart, -⟩ :=
    Environment.meets_parts instructs.writer.compatible instructs.reader.compatible met
  have count : vs.length < 2 ^ 32 := by
    have bound := instructs.sized.lengths h
    rw [here] at bound
    rcases isItems with rfl | rfl <;> exact bound
  have shows : ∀ v ∈ vs, g.Shows root v := fun v member => .inr (.inr ⟨h, by
    rw [here]
    rcases isItems with rfl | rfl <;> exact member⟩)
  intro notes ws recorded
  refine Write.ensures_items ((Returns.many (fun v member =>
    answers.element instructs metPart vs (shows v member)) notes ws recorded).mono ?_)
  rintro bytes ws' ⟨notes', recorded', reads⟩
  refine ⟨notes', recorded', fun slot st recalls => ?_⟩
  refine Read.runs_items count (instructs.unlimited ▸ SizeLimits.admits_unlimited _ _)
    (Environment.known_of_declared metPart.typed)
    ((reads _ (recalls.opened _)).mono fun _ _ recalls' => ?_)
  exact (recalls'.waits slot).moved rfl rfl rfl

theorem entries {pairs : List (Value × Value)} (here : g.node h = .map pairs) :
    Returns W g root (Write.entries W g write shape pairs) fun notes notes' bytes => ∀ slot,
      Resumes W R g notes notes' slot (Read.entries R read q.shape slot) bytes := by
  obtain ⟨metKeys, metValues⟩ :=
    Environment.meets_parts instructs.writer.compatible instructs.reader.compatible met
  have count : pairs.length < 2 ^ 32 := by
    have bound := instructs.sized.lengths h
    rwa [here] at bound
  have shows : ∀ pair ∈ pairs, g.Shows root pair.1 ∧ g.Shows root pair.2 :=
    Node.forall_contents_map.1 fun v member => .inr (.inr ⟨h, here ▸ member⟩)
  intro notes ws recorded
  refine Write.ensures_entries ((Returns.many (fun pair member =>
    (answers.element instructs metKeys (pairs.map (·.1)) (shows pair member).1).pair
      (answers.element instructs metValues (pairs.map (·.2)) (shows pair member).2)) notes ws
        recorded).mono ?_)
  rintro bytes ws' ⟨notes', recorded', reads⟩
  refine ⟨notes', recorded', fun slot st recalls => ?_⟩
  refine Read.runs_entries count (instructs.unlimited ▸ SizeLimits.admits_unlimited _ _)
    (Environment.known_of_declared metKeys.typed) (Environment.known_of_declared metValues.typed)
    ((reads _ (recalls.opened _)).mono fun _ _ recalls' => ?_)
  exact (recalls'.waits slot).moved rfl rfl rfl

end

/-! ### Records -/

section

variable {h : Handle} {r : Record} (here : g.node h = .record r) {s : StructType}
  (written : W.structFor? r = some s)

include instructs answers here written

/-- A field is taken behind a marker and at a place that suit it. -/
theorem field {f : Field} {mode : RefMode} {q : Place} (met : f.MetBy W mode q) :
    Returns W g root (Write.field W g write s r f) fun notes notes' bytes =>
      Resumes W R g notes notes' none (Read.marked R read mode q.typed q.shape) bytes := by
  have sendable := (instructs.writer.cases_structFor? written).2.1
  unfold Write.field
  dsimp only
  split
  · exact .throw _
  · rw [sendable.isCompatible, ← instructs.writer.compatible, met.mode]
    exact answers.marked instructs (Graph.shows_value here f.name) met.place f.refMode

/-- Fields that suit the reader's own are taken as these. -/
theorem ownFields {ours : StructType} (known : R.registry.HasStruct ours)
    (fields : List.Forall₂ (fun f own => f.MetBy W own.refMode (R.fieldPlace own)) s.fields
      ours.fields) :
    Returns W g root (Write.concat (Write.field W g write s r) s.fields)
      fun notes notes' bytes => ∀ k, Resumes W R g notes notes' none
        (Read.each (Read.field R read ours k) ours.fields) bytes := by
  obtain ⟨_, found⟩ := known
  have kind : ours.isCompatible = R.config.compatible :=
    (instructs.reader.built.built found).kind_eq.trans instructs.reader.compatible.symm
  refine Returns.each fields ?_
  intro f own member met
  refine (answers.field instructs here written met).mono fun _ _ _ reads k => ?_
  unfold Read.field
  rw [kind]
  exact reads.then fun v => by
    split
    · exact .noteNull k own.name
    · exact .setField k own.name v

/-- Fields that suit the entries of a definition are taken by these, and kept or dropped. -/
theorem entryFields {p : PeerStruct}
    (fields : List.Forall₂ (fun f e => f.MetBy W e.refMode ⟨e.typed, e.shape⟩) s.fields p.fields)
    (defaults : p.Fillable) :
    Returns W g root (Write.concat (Write.field W g write s r) s.fields)
      fun notes notes' bytes => ∀ k, Resumes W R g notes notes' none
        (Read.each (Read.peerField R read p k) p.fields) bytes := by
  refine Returns.each fields ?_
  intro f e member met
  refine (answers.field instructs here written met).mono fun _ _ _ reads k => ?_
  exact reads.then fun v => .keepField defaults k e v

/-- A record is taken where the reader makes of its struct what suits. -/
theorem record : Returns W g root (Write.record W g write s false r) fun notes notes' bytes =>
    ∀ slot, Resumes W R g notes notes' slot (Read.peerRecord R read (R.registry.peer s) slot)
      bytes := by
  intro notes ws recorded
  cases instructs.suits s ⟨h, r, here, written⟩ with
  | @own ours sameLayout own known fields =>
    obtain ⟨name, found⟩ := id known
    refine Write.ensures_record instructs.writer.strategy
      ((answers.ownFields instructs here written known fields notes ws recorded).mono ?_)
    rintro bytes ws' ⟨notes', recorded', reads⟩
    refine ⟨notes', recorded', fun slot st recalls => ?_⟩
    unfold Read.peerRecord
    rw [sameLayout, own]
    refine Read.runs_record instructs.reader.strategy (instructs.reader.built.built found).version ?_
    exact (reads _ _ (recalls.opened _)).mono fun _ _ recalls' => recalls'.waits slot
  | entries differs fields defaults =>
    refine Write.ensures_record instructs.writer.strategy
      ((answers.entryFields instructs here written fields defaults notes ws recorded).mono ?_)
    rintro bytes ws' ⟨notes', recorded', reads⟩
    refine ⟨notes', recorded', fun slot st recalls => ?_⟩
    rw [Read.peerRecord_eq_reconciled differs]
    refine (Read.runsIf_reconciled (Runs.runsIf ?_)).runs trivial
    rw [← List.append_nil bytes]
    refine (reads _ _ (recalls.opened _)).bind fun _ _ recalls' => ?_
    exact (Resumes.eachMissing (fun own lacking => defaults.lacking lacking) _ _ recalls').mono
      fun _ _ recalls'' => recalls''.waits slot

end

/-! ### Levels -/

section

variable {write : Option WritePayload} {read : Option ReadPayload} {shape : Shape} {q : Place} {v : Value}
  (deeper : ∀ w, write = some w → ∃ r, read = some r ∧ Answers W R g root w r)

include instructs

omit instructs in
/-- A reader has a level left where the writer had one. -/
theorem descend {notes notes' : Notes} {slot : Option Nat} {bytes : List UInt8} {r : ReadPayload}
    {m : ReadPayload → Read Value} (known : read = some r)
    (h : Resumes W R g notes notes' slot (m r) bytes) :
    Resumes W R g notes notes' slot (Read.check (R.descend read) >>= m) bytes := by
  subst known
  exact h

theorem layer_scalar {t : TypeId} (noContainer : t.isContainer = false) (shows : g.Shows root v) :
    Returns W g root (Write.layer W g write (.builtin t) shape v) fun notes notes' bytes =>
      ∀ slot, Resumes W R g notes notes' slot (Read.layer R read (.builtin t) q.shape slot) bytes := by
  intro notes ws recorded
  simp only [Write.layer, Read.layer, noContainer, Bool.false_eq_true, if_false]
  have admitted : v.Admitted R.config.limits := instructs.unlimited ▸ v.admitted_unlimited
  exact .lift fun bytes scalar => ⟨notes, recorded, fun _ =>
    .takes (Read.takes_scalar scalar (instructs.sized.short_of_shows instructs.short shows) admitted)⟩

theorem layer_enum {typeName : String} {members : Option Nat} (shows : g.Shows root v) :
    Returns W g root (Write.layer W g write (.enum typeName members) shape v)
      fun notes notes' bytes => ∀ slot, Resumes W R g notes notes' slot
        (Read.layer R read (.enum typeName members) q.shape slot) bytes := by
  intro notes ws recorded
  simp only [Write.layer, Read.layer]
  split
  · rename_i name ordinal
    split
    · rename_i member
      have short := instructs.sized.short_of_shows instructs.short shows
      refine .pure ⟨notes, recorded, fun _ => ?_⟩
      refine .takes (a := .enum typeName ordinal)
        ((Read.Takes.decode (Decode.yields_varuint32 short.2)).then ?_)
      rw [if_pos member]
      exact .pure _
    · exact .throw _
  · exact .error _

include deeper

theorem layer_container {t : TypeId} (container : t.isContainer = true) {hasType : Bool}
    (met : (Place.mk hasType shape).Meets q) :
    Returns W g root (Write.layer W g write (.builtin t) shape v) fun notes notes' bytes =>
      ∀ slot, Resumes W R g notes notes' slot (Read.layer R read (.builtin t) q.shape slot) bytes := by
  intro notes ws recorded
  simp only [Write.layer, Read.layer, container, if_true]
  refine Write.ensures_container (fun w elements known found kind => ?_)
    (fun w elements known found kind => ?_) (fun w pairs known found kind => ?_)
  all_goals
    obtain ⟨inner, left, answers⟩ := deeper w known
    obtain ⟨h, -, here⟩ := Option.map_eq_some_iff.1 found
    subst kind
  · refine (answers.items instructs met (.inl rfl) here notes ws recorded).mono ?_
    rintro bytes ws' ⟨notes', recorded', reads⟩
    exact ⟨notes', recorded', fun slot => descend left (reads slot)⟩
  · refine (answers.items instructs met (.inr rfl) here notes ws recorded).mono ?_
    rintro bytes ws' ⟨notes', recorded', reads⟩
    exact ⟨notes', recorded', fun slot => descend left (reads slot)⟩
  · refine (answers.entries instructs met here notes ws recorded).mono ?_
    rintro bytes ws' ⟨notes', recorded', reads⟩
    exact ⟨notes', recorded', fun slot => descend left (reads slot)⟩

theorem layer_record {r : Record} {s : StructType} (isRecord : g.asRecord? v = some r)
    (written : W.structFor? r = some s) :
    Returns W g root (Write.layer W g write (.struct s false) shape v) fun notes notes' bytes =>
      ∀ slot, Resumes W R g notes notes' slot
        (Read.layer R read (.peer (R.registry.peer s)) q.shape slot) bytes := by
  intro notes ws recorded
  simp only [Write.layer, Read.layer, isRecord]
  split
  · exact .throw _
  · refine Write.ensures_descend fun w known => ?_
    obtain ⟨inner, left, answers⟩ := deeper w known
    obtain ⟨h, -, here⟩ := Option.map_eq_some_iff.1 (Graph.nodeOf?_of_asRecord? isRecord)
    refine (answers.record instructs here written notes ws recorded).mono ?_
    rintro bytes ws' ⟨notes', recorded', reads⟩
    exact ⟨notes', recorded', fun slot => descend left (reads slot)⟩

/-- Payloads are taken if those of the next level are. -/
theorem layer : Answers W R g root (Write.layer W g write) (Read.layer R read) := by
  intro hasType shape q v wire shows met sentAs
  cases sentAs with
  | builtin t =>
    cases container : t.isContainer with
    | true => exact layer_container instructs deeper container met
    | false => exact layer_scalar instructs container shows
  | record isRecord written => exact layer_record instructs deeper isRecord written
  | «enum» typeName members => exact layer_enum instructs shows

omit deeper

/-- Payloads are taken by a reader that may go down at least as far as the writer. -/
theorem payload {levels levels' : Nat} (within : levels ≤ levels') :
    Answers W R g root (Write.payload W g levels) (Read.payload R levels') := by
  induction levels generalizing levels' with
  | zero =>
    cases levels' with
    | zero | succ => exact layer instructs fun w none => by cases none
  | succ levels ih =>
    obtain _ | levels' := levels'
    · exact absurd within (Nat.not_succ_le_zero levels)
    · exact layer instructs fun w known =>
        ⟨_, rfl, by cases known; exact ih (Nat.le_of_succ_le_succ within)⟩

end

end Answers

namespace Environment.Instructs

variable {W R : Instance} {g : Graph} {v : Value} (instructs : W.environment.Instructs R.environment g v)

include instructs

/-- What a fresh reader is told all that it needs of, it reads. -/
theorem deserialize_written (sane : R.fault = none) (unused : R.cache = .empty)
    (references : W.config.trackRef = R.config.trackRef) (deep : W.config.maxDepth ≤ R.config.maxDepth)
    {bytes : List UInt8} (written : W.serialize g v = .ok bytes) :
    ∃ result, (R.deserialize bytes).1 = .ok result := by
  obtain ⟨-, ⟨-, rfl⟩ | ⟨-, body, ws, rfl, run⟩⟩ := Instance.ok_of_serialize written
  · exact ⟨_, R.deserialize_null sane⟩
  · have recorded : Recorded W.environment g v ⟨[], []⟩ .initial :=
      ⟨.initial _ g, fun _ member => absurd member List.not_mem_nil⟩
    have root : (Place.mk true .dynamic).Meets (.mk true .dynamic) := ⟨rfl, fun _ => .inl rfl, nofun⟩
    obtain ⟨notes, -, reads⟩ := (Answers.payload instructs deep).marked instructs (.inl rfl) root
      W.rootMode _ _ recorded body ws run
    have runs := reads _ (.initial W.environment R.environment g (Encode.head false ++ body))
    rw [← unused, show W.rootMode = R.rootMode from congrArg (RefMode.ofFlags true) references] at runs
    obtain ⟨w, st, read, -⟩ := Instance.deserialize_of_runs sane runs
    exact ⟨_, read⟩

end Environment.Instructs

end Graphwire
