import Graphwire.Proofs.Definitions
import Graphwire.Proofs.History
import Graphwire.Proofs.Matching
import Graphwire.Proofs.Refusals
import Mathlib.Data.List.TakeWhile

/-!
# Definitions that are sent once

A writer sends the definition of a struct where it first mentions the struct, and its number from then
on. A reader that gave the same numbers to the same definitions knows which struct each mention
means. Numbers are given by name on one side and by position on the other; a definition that is in
the cache is moved over, so definitions that differ must have different headers.
-/

namespace Graphwire

set_option autoImplicit false

open Decode (YieldsIf)

/-! ## Structs and their definitions -/

/-- Whether definitions that differ have different headers. -/
def HeadersApart (known : StructType → Prop) : Prop :=
  ∀ s s', known s → known s' → s.header? = s'.header? → s.definition = s'.definition

/-- Whether the bytes that a struct was built with are a header and a definition under it. -/
structure StructType.Defined (s : StructType) (header : Int) (after : List UInt8) : Prop where
  definition : s.definition = some (Encode.signed 8 header ++ after)
  front : s.header? = some header
  reads : (StructType.definitionOf s.id s.package s.typeName s.fields).Reads header after

/-- Whether structs have definitions that can be told apart. -/
structure Distinguished (known : StructType → Prop) : Prop where
  defined : ∀ s, known s → ∃ header after, s.Defined header after
  apart : HeadersApart known

/-- What a reader makes of a struct when it reads its definition. -/
def Registry.peer (R : Registry) (s : StructType) : PeerStruct := R.peerOf s (s.header?.getD 0)

namespace StructType

variable {s s' : StructType} {header : Int} {after : List UInt8}

theorem Described.defined {levels : Nat} (described : s.Described true)
    (tellable : (definitionOf s.id s.package s.typeName s.fields).Tellable levels) :
    ∃ header after, s.Defined header after := by
  obtain ⟨bytes, encoded, definition⟩ := described.definition rfl
  obtain ⟨header, after, same, reads⟩ := tellable.reads
  rw [encoded] at same
  cases same
  exact ⟨header, after, definition, header?_eq definition reads.range, reads⟩

theorem Defined.peer_eq (defined : s.Defined header after) (R : Registry) :
    R.peer s = R.peerOf s header := by
  rw [Registry.peer, defined.front]
  rfl

/-- What was read from one struct's bytes under a header is what another struct with them tells. -/
theorem Defined.told_eq (defined : s.Defined header after) {p : Nat} {rest : List UInt8}
    {d : TypeDefinition} {r : Reader}
    (read : TypeDefinition.decodeAfter header ⟨p, after ++ rest⟩ = .ok d r) : d = s.told header :=
  (defined.reads.read.eq_of_ok read).1

/-- Whether a reader can make something of the definition of a struct. -/
def Legible (s : StructType) : Prop :=
  ∃ header after p rest d r, s.Defined header after ∧
    TypeDefinition.decodeAfter header ⟨p, after ++ rest⟩ = .ok d r

/-- Structs with one definition are told alike. -/
theorem Legible.told_eq (legible : s.Legible) {header' : Int} {after' : List UInt8}
    (defined : s'.Defined header' after') (same : s.definition = s'.definition) :
    s.told header' = s'.told header' := by
  obtain ⟨header, after, p, rest, d, r, mine, read⟩ := legible
  have front : s.header? = s'.header? := by simp only [header?, same]
  rw [mine.front, defined.front] at front
  cases front
  rw [mine.definition, defined.definition] at same
  cases List.append_cancel_left (Option.some.inj same)
  rw [← mine.told_eq read, ← defined.told_eq read]

/-- What is sent of a struct after others were told. -/
def mention (told : List StructType) (s : StructType) : List UInt8 :=
  match (told.map (·.qualifiedName)).idxOf? s.qualifiedName with
  | some number => Encode.varuint32 (2 * number + 1)
  | none => Encode.varuint32 (2 * told.length) ++ s.definition.getD []

/-- The structs that are told once a struct was mentioned. -/
def toldAfter (told : List StructType) (s : StructType) : List StructType :=
  if s.qualifiedName ∈ told.map (·.qualifiedName) then told else told ++ [s]

theorem mem_toldAfter {told : List StructType} (h : s' ∈ s.toldAfter told) : s' ∈ told ∨ s' = s := by
  unfold toldAfter at h
  split at h
  · exact .inl h
  · exact (List.mem_append.1 h).imp_right List.mem_singleton.1

theorem length_le_toldAfter (told : List StructType) (s : StructType) :
    told.length ≤ (s.toldAfter told).length := by
  unfold toldAfter
  split
  · exact Nat.le_refl _
  · rw [List.length_append]
    exact Nat.le_add_right ..

/-! ### Sequences of mentions -/

/-- What is sent of structs one after the other. -/
def mentions : List StructType → List StructType → List (List UInt8)
  | _, [] => []
  | told, s :: rest => s.mention told :: mentions (s.toldAfter told) rest

/-- The structs that are told once a sequence of structs was mentioned. -/
def toldAll (told types : List StructType) : List StructType :=
  types.foldl (fun told s => s.toldAfter told) told

theorem length_le_toldAll (told types : List StructType) :
    told.length ≤ (toldAll told types).length := by
  induction types generalizing told with
  | nil => exact Nat.le_refl _
  | cons s rest ih => exact Nat.le_trans (length_le_toldAfter told s) (ih _)

/-- The number of a struct in a sequence: how many others are mentioned before its first mention. -/
def numberIn (types : List StructType) (s : StructType) : Nat :=
  (types.map (·.qualifiedName)).eraseDups.idxOf s.qualifiedName

/-- What is sent of the struct at a position of a sequence: its number, and its definition if this is
its first mention. -/
def mentionAt (types : List StructType) (position : Nat) (s : StructType) : List UInt8 :=
  if s.qualifiedName ∈ (types.take position).map (·.qualifiedName) then
    Encode.varuint32 (2 * s.numberIn types + 1)
  else Encode.varuint32 (2 * s.numberIn types) ++ s.definition.getD []

section Sequences

variable {told before : List StructType}
  (names : told.map (·.qualifiedName) = (before.map (·.qualifiedName)).eraseDups)

include names

theorem map_toldAfter (s : StructType) : (s.toldAfter told).map (·.qualifiedName) =
    ((before ++ [s]).map (·.qualifiedName)).eraseDups := by
  have same : s.qualifiedName ∈ told.map (·.qualifiedName) ↔
      s.qualifiedName ∈ before.map (·.qualifiedName) := by rw [names, List.mem_eraseDups]
  rw [List.map_append, List.eraseDups_append, ← names, List.map_singleton, List.removeAll,
    List.filter_singleton, toldAfter]
  by_cases old : s.qualifiedName ∈ before.map (·.qualifiedName)
  · rw [if_pos (same.2 old)]
    simp only [List.elem_eq_mem, old, decide_true, Bool.not_true, cond_false, List.eraseDups_nil,
      List.append_nil]
  · rw [if_neg (mt same.1 old), List.map_append]
    simp only [List.elem_eq_mem, old, decide_false, Bool.not_false, cond_true, List.map_singleton,
      List.eraseDups_cons, List.filter_nil, List.eraseDups_nil]

theorem map_toldAll (types : List StructType) : (toldAll told types).map (·.qualifiedName) =
    ((before ++ types).map (·.qualifiedName)).eraseDups := by
  induction types generalizing told before with
  | nil => rw [List.append_nil, ← names]; rfl
  | cons s rest ih =>
    have step := ih (map_toldAfter names s)
    rwa [List.append_assoc] at step

theorem mention_eq (s : StructType) (rest : List StructType) :
    s.mention told = s.mentionAt (before ++ s :: rest) before.length := by
  have split : (before ++ s :: rest).map (·.qualifiedName) =
      before.map (·.qualifiedName) ++ s.qualifiedName :: rest.map (·.qualifiedName) :=
    List.map_append
  rw [mention, mentionAt, List.take_left, numberIn, split, List.eraseDups_append, ← names]
  cases indexed : (told.map (·.qualifiedName)).idxOf? s.qualifiedName with
  | some number =>
    have member : s.qualifiedName ∈ told.map (·.qualifiedName) := by
      obtain ⟨lt, here, -⟩ := List.idxOf?_eq_some_iff.1 indexed
      exact List.mem_of_getElem here
    have old := member
    rw [names, List.mem_eraseDups] at old
    rw [if_pos old, List.idxOf_append_of_mem member, List.idxOf_eq_getD_idxOf?, indexed]
    rfl
  | none =>
    have fresh := List.idxOf?_eq_none_iff.1 indexed
    have new := fresh
    rw [names, List.mem_eraseDups] at new
    rw [if_neg new, List.idxOf_append_of_notMem fresh, List.removeAll, List.filter_cons_of_pos,
      List.eraseDups_cons, List.idxOf_cons_self, List.length_map]
    · rfl
    · simpa using new

theorem mentions_eq (types : List StructType) : mentions told types =
    types.mapIdx fun k s => s.mentionAt (before ++ types) (before.length + k) := by
  induction types generalizing told before with
  | nil => rfl
  | cons s rest ih =>
    have later := ih (map_toldAfter names s)
    rw [List.append_assoc, List.length_append, List.length_singleton] at later
    rw [mentions, List.mapIdx_cons, Nat.add_zero, ← mention_eq names, later]
    simp only [Nat.add_assoc, Nat.add_comm 1]
    rfl

end Sequences

end StructType

/-! ## Identities -/

/-- A definition with an identifier leads to the struct that owns it. -/
theorem Registry.structOf?_told {R : Registry} (sound : R.Sound) {compatible trackRef : Bool}
    (built : R.BuiltFor compatible trackRef) {name : String} {s w : StructType} {id : Nat}
    (found : R.struct? name = some s) (ident : s.id = some id) (same : w.id = some id)
    (header : Int) :
    R.structOf? (w.told header).identity = some s := by
  have identity : (w.told header).identity = .id id := by
    simp only [StructType.told, StructType.definitionOf, TypeDefinition.ofFields, same]
    rfl
  simp only [identity, Registry.structOf?, sound.byId?_struct built found ident]

/-- A name is split at its last dot, if it has one. -/
theorem splitQualified_cases (name : String) :
    (splitQualified name).1 = "" ∧ (splitQualified name).2 = name ∨
      name = (splitQualified name).1 ++ "." ++ (splitQualified name).2 := by
  have whole := name.toList.reverse.takeWhile_append_dropWhile (p := (· ≠ '.'))
  have dot := List.head?_dropWhile_not (· ≠ '.') name.toList.reverse
  unfold splitQualified
  dsimp only
  generalize name.toList.reverse.takeWhile (· ≠ '.') = last at whole ⊢
  generalize name.toList.reverse.dropWhile (· ≠ '.') = rest at whole dot ⊢
  cases rest with
  | nil => exact .inl ⟨rfl, rfl⟩
  | cons d front =>
    have isDot : d = '.' := by simpa using dot
    subst isDot
    have chars : name.toList = front.reverse ++ '.' :: last.reverse := by
      simpa using congrArg List.reverse whole.symm
    exact .inr (String.toList_injective (by simp [chars]))

/-- Whether a name is a text without dots behind a dot. -/
def DotOnlyInFront (name : String) : Prop := ∃ rest : String, name = "." ++ rest ∧ '.' ∉ rest.toList

theorem DotOnlyInFront.head? {name : String} (h : DotOnlyInFront name) :
    name.toList.head? = some '.' := by
  obtain ⟨rest, rfl, -⟩ := h
  simp

/-- The part after the last dot has no dots. -/
theorem dot_not_mem_splitQualified (name : String) : '.' ∉ (splitQualified name).2.toList := by
  have front : '.' ∉ name.toList.reverse.takeWhile (· ≠ '.') := by
    intro member
    simpa using List.mem_takeWhile_imp member
  unfold splitQualified
  dsimp only
  split
  · rename_i none
    have all := List.dropWhile_eq_nil_iff.1 none
    intro member
    simpa using all '.' (List.mem_reverse.2 member)
  · simpa using front

/-- A name is put together from its parts again just if a dot in front of it is not its only one. -/
theorem qualify_splitQualified_iff {name : String} :
    qualify (splitQualified name).1 (splitQualified name).2 = name ↔ ¬DotOnlyInFront name := by
  constructor
  · rintro whole ⟨rest, rfl, noDot⟩
    rcases splitQualified_cases ("." ++ rest) with ⟨-, all⟩ | parts
    · have last := dot_not_mem_splitQualified ("." ++ rest)
      rw [all] at last
      exact last (by simp)
    · have chars := congrArg String.toList parts
      cases front : (splitQualified ("." ++ rest)).1.toList with
      | nil =>
        have none : (splitQualified ("." ++ rest)).1 = "" := String.toList_injective (by rw [front]; rfl)
        rw [none, qualify, if_pos rfl] at whole
        exact dot_not_mem_splitQualified ("." ++ rest) (by rw [whole]; simp)
      | cons c more =>
        simp only [String.toList_append, front, List.cons_append] at chars
        have tail := (List.cons.inj chars).2
        exact noDot (by rw [show rest.toList = _ from tail]; simp)
  · intro h
    rcases splitQualified_cases name with ⟨none, whole⟩ | whole
    · rw [none, whole]
      rfl
    · have package : (splitQualified name).1 ≠ "" := by
        intro none
        rw [none, String.empty_append] at whole
        exact h ⟨_, whole, dot_not_mem_splitQualified name⟩
      rw [qualify, if_neg package]
      exact whole.symm

/-- A name that does not start with a dot is put together from its parts again. -/
theorem qualify_splitQualified {name : String} (noDot : name.toList.head? ≠ some '.') :
    qualify (splitQualified name).1 (splitQualified name).2 = name :=
  qualify_splitQualified_iff.2 fun h => noDot h.head?

/-- A definition with two names leads to the struct of the name that they make up, if there is one. -/
theorem Registry.structOf?_told_parts {R : Registry} {name : String} {w : StructType}
    (unnumbered : w.id = none) (whole : qualify w.package w.typeName = name) (header : Int) :
    R.structOf? (w.told header).identity = R.struct? name := by
  have identity : (w.told header).identity = .names w.package w.typeName := by
    simp only [StructType.told, StructType.definitionOf, TypeDefinition.ofFields, unnumbered]
    rfl
  simp only [identity, Registry.structOf?, Registry.byName?, whole]
  cases found : R.struct? name with
  | some s => rw [Registry.named?_eq_struct_iff.2 found]
  | none =>
    split
    · rename_i s named
      cases found.symm.trans (Registry.named?_eq_struct_iff.1 named)
    · rfl

theorem Registry.structOf?_told_names {R : Registry} {name : String} {w : StructType}
    (unnumbered : w.id = none) (parts : splitQualified name = (w.package, w.typeName))
    (recovers : ¬DotOnlyInFront name) (header : Int) :
    R.structOf? (w.told header).identity = R.struct? name := by
  have whole := qualify_splitQualified_iff.2 recovers
  rw [parts] at whole
  exact Registry.structOf?_told_parts unnumbered whole header

/-! ## Writers -/

/-- The writer sends the definition or its number. -/
theorem Write.definition_apply {s : StructType} {told : List StructType} {ws : WriteState}
    (defined : s.definition.isSome) (sent : ws.sent = told.map (·.qualifiedName)) :
    definition s ws = .ok (s.mention told,
      { ws with sent := (s.toldAfter told).map (·.qualifiedName) }) := by
  obtain ⟨bytes, definition⟩ := Option.isSome_iff_exists.1 defined
  refine bind_eq_ok_iff.2 ⟨ws, ws, rfl, ?_⟩
  rw [sent, StructType.mention, StructType.toldAfter]
  cases number : (told.map (·.qualifiedName)).idxOf? s.qualifiedName with
  | some number =>
    obtain ⟨lt, here, -⟩ := List.idxOf?_eq_some_iff.1 number
    rw [if_pos (List.mem_of_getElem here), ← sent]
    rfl
  | none =>
    rw [if_neg (List.idxOf?_eq_none_iff.1 number), definition, List.map_append, List.length_map]
    rfl

/-- The writer sends structs one after the other. -/
theorem Write.concat_definition {types told : List StructType} {ws : WriteState}
    (defined : ∀ s ∈ types, s.definition.isSome) (sent : ws.sent = told.map (·.qualifiedName)) :
    concat definition types ws = .ok ((StructType.mentions told types).flatten,
      { ws with sent := (StructType.toldAll told types).map (·.qualifiedName) }) := by
  induction types generalizing told ws with
  | nil => exact sent ▸ rfl
  | cons s rest ih =>
    obtain ⟨first, later⟩ := List.forall_mem_cons.1 defined
    have step := definition_apply first sent
    have more := @ih _ { ws with sent := (s.toldAfter told).map (·.qualifiedName) } later rfl
    exact bind_eq_ok_iff.2 ⟨_, _, step, bind_eq_ok_iff.2 ⟨_, _, more, rfl⟩⟩

/-! ## Readers -/

/-- Whether a cache holds, under the headers of known structs, nothing but what the reader makes of
them. -/
def DefinitionCache.Keeps (c : DefinitionCache) (known : StructType → Prop) (R : Registry) : Prop :=
  ∀ s header p, known s → s.header? = some header → c.get? header = some p →
    p = R.peerOf s header ∧ s.Legible

/-- Whether a reader keeps the structs that were told under the writer's numbers, and nothing else of
the known structs in its cache. -/
structure Told (known : StructType → Prop) (R : Registry) (told : List StructType) (st : ReadState) :
    Prop where
  members : ∀ s ∈ told, known s ∧ s.Legible
  received : st.received = told.map R.peer
  cache : st.cache.Keeps known R

theorem Told.initial (known : StructType → Prop) (R : Registry) (bytes : List UInt8) :
    Told known R [] (.ofBytes bytes .empty) where
  members _ member := by cases member
  received := rfl
  cache _ _ _ _ _ found := by cases found

namespace Read

variable {known : StructType → Prop} {R : Registry} {told : List StructType} {st : ReadState}
  {s : StructType} {sure : Prop} {header : Int} {after : List UInt8}

/-- What was read is kept, as definitions that differ have different headers. -/
theorem keeps_add (distinguished : Distinguished known) (hs : known s)
    (defined : s.Defined header after) {p : Nat} {rest : List UInt8} {d : TypeDefinition} {r : Reader}
    (read : TypeDefinition.decodeAfter header ⟨p, after ++ rest⟩ = .ok d r) {c : DefinitionCache}
    (cache : c.Keeps known R) : (c.add header (R.peerOf s header)).Keeps known R := by
  intro s' header' p' known' front' found
  unfold DefinitionCache.add at found
  split at found
  · simp only [DefinitionCache.get?, List.lookup_cons] at found
    split at found
    · rename_i same
      cases beq_iff_eq.1 same
      cases found
      obtain ⟨_, after', defined'⟩ := distinguished.defined s' known'
      cases Option.some.inj (front'.symm.trans defined'.front)
      have bytes := distinguished.apart s s' hs known' (defined.front.trans front'.symm)
      rw [defined.definition, defined'.definition] at bytes
      cases List.append_cancel_left (Option.some.inj bytes)
      refine ⟨?_, header, after, p, rest, d, r, defined', read⟩
      rw [Registry.peerOf, Registry.peerOf, ← defined.told_eq read, ← defined'.told_eq read]
    · exact cache s' header' p' known' front' found
  · exact cache s' header' p' known' front' found

/-- A definition after its header is taken from the cache or read, and kept. -/
theorem runsIf_definitionAfter (st : ReadState) (distinguished : Distinguished known) (hs : known s)
    (defined : s.Defined header after)
    (legible : sure → (StructType.definitionOf s.id s.package s.typeName s.fields).Tellable
      FieldType.maxDepth)
    (cache : st.cache.Keeps known R) :
    RunsIf sure (definitionAfter R header) st after fun p st' =>
      p = R.peerOf s header ∧ s.Legible ∧
        ∃ cache' : DefinitionCache, st' = { st with cache := cache' } ∧ cache'.Keeps known R := by
  intro p rest
  let at' : ReadState := { st with reader := ⟨p, after ++ rest⟩ }
  cases found : st.cache.get? header with
  | some kept =>
    obtain ⟨p', run⟩ := defined.reads.skip p rest
    obtain ⟨same, known⟩ := cache s header kept hs defined.front found
    refine .inl ⟨kept, st, p', ?_, same, known, st.cache, rfl, cache⟩
    rw [definitionAfter_of_hit (s := at') found, bind_apply]
    simp only [decode, at', run]
    rfl
  | none =>
    rcases defined.reads.read p rest with ⟨p', run⟩ | ⟨unsure, e, r, run⟩
    · refine .inl ⟨R.peerOf s header, { st with cache := st.cache.add header (R.peerOf s header) }, p',
        ?_, rfl, ⟨header, after, p, rest, _, _, defined, run⟩, _, rfl,
        keeps_add distinguished hs defined run cache⟩
      rw [definitionAfter_of_miss (s := at') found, bind_apply, parsedAfter_apply]
      simp only [at', run]
      rfl
    · refine .inr ⟨fun holds => unsure (legible holds), e, { at' with reader := r }, ?_⟩
      rw [definitionAfter_of_miss (s := at') found, bind_apply, parsedAfter_apply]
      simp only [at', run]

/-- Noting where a definition stands changes nothing else. -/
theorem RunsIf.noted {β : Type} {f : Unit → Read β} {bytes : List UInt8}
    {Q : β → ReadState → Prop} (header : Int)
    (h : ∀ met, RunsIf sure (f ()) { st with met } bytes Q) :
    RunsIf sure (note header >>= f) st bytes Q :=
  fun p rest => h (st.met ++ [(header, Reader.mk p (bytes ++ rest))]) p rest

/-- Giving a definition its number changes nothing else. -/
theorem RunsIf.received {β : Type} {f : Unit → Read β} {bytes : List UInt8}
    {Q : β → ReadState → Prop} (p : PeerStruct)
    (h : RunsIf sure (f ()) { st with received := st.received ++ [p] } bytes Q) :
    RunsIf sure (receive p >>= f) st bytes Q :=
  fun position rest => h position rest

/-- A mention of a struct is read as what the reader makes of the struct. -/
theorem runsIf_definition (distinguished : Distinguished known) (hs : known s)
    (legible : sure → (StructType.definitionOf s.id s.package s.typeName s.fields).Tellable
      FieldType.maxDepth)
    (kept : Told known R told st)
    (unique : ∀ s' ∈ told, s'.qualifiedName = s.qualifiedName → s' = s)
    (few : (s.toldAfter told).length ≤ 2 ^ 31) :
    RunsIf sure (definition R) st (s.mention told) fun p st' => p = R.peer s ∧ s.Legible ∧
      Told known R (s.toldAfter told) st' ∧ st'.graph = st.graph ∧ st'.slots = st.slots := by
  obtain ⟨header, after, defined⟩ := distinguished.defined s hs
  unfold definition StructType.mention StructType.toldAfter at *
  cases indexed : (told.map (·.qualifiedName)).idxOf? s.qualifiedName with
  | some number =>
    obtain ⟨lt, here, -⟩ := List.idxOf?_eq_some_iff.1 indexed
    have member := List.mem_of_getElem here
    rw [if_pos member] at few ⊢
    rw [List.length_map] at lt
    rw [List.getElem_map] at here
    have same := unique _ (List.getElem_mem lt) here
    have found : st.received[number]? = some (R.peer s) := by
      rw [kept.received, List.getElem?_map, List.getElem?_eq_getElem lt, same]
      rfl
    dsimp only
    rw [← List.append_nil (Encode.varuint32 _)]
    refine .after (.decode (Decode.yields_varuint32 (by omega))) (.step (fun _ => rfl) ?_)
    rw [if_pos (by omega), show (2 * number + 1) / 2 = number by omega, found]
    exact .pure ⟨rfl, same ▸ (kept.members _ (List.getElem_mem lt)).2, kept, rfl, rfl⟩
  | none =>
    have fresh := List.idxOf?_eq_none_iff.1 indexed
    rw [if_neg fresh] at few ⊢
    rw [List.length_append, List.length_singleton] at few
    dsimp only
    rw [defined.definition, Option.getD_some]
    refine .after (.decode (Decode.yields_varuint32 (by omega))) (.step (fun _ => rfl) ?_)
    have count : told.length = st.received.length := by rw [kept.received, List.length_map]
    rw [if_neg (by omega), show 2 * told.length / 2 = told.length by omega,
      if_neg (not_not.2 count)]
    refine .after (.decode defined.reads.readHeader) (.noted header fun met => ?_)
    refine (runsIf_definitionAfter { st with met } distinguished hs defined legible
      kept.cache).then ?_
    rintro p _ ⟨rfl, known, cache', rfl, keeps⟩
    refine .received _ (.pure ⟨(defined.peer_eq R).symm, known, ⟨?_, ?_, keeps⟩, rfl, rfl⟩)
    · rintro s' member
      rcases List.mem_append.1 member with old | new
      · exact kept.members s' old
      · exact List.mem_singleton.1 new ▸ ⟨hs, known⟩
    · show st.received ++ [_] = _
      rw [kept.received, List.map_append, ← defined.peer_eq]
      rfl

/-- Mentions of structs are read as what the reader makes of them. -/
theorem runsIf_definitions (sure : Prop) (distinguished : Distinguished known)
    (named : ∀ s s', known s → known s' → s.qualifiedName = s'.qualifiedName → s = s')
    {types : List StructType} (hs : ∀ s ∈ types, known s)
    (legible : sure → ∀ s ∈ types,
      (StructType.definitionOf s.id s.package s.typeName s.fields).Tellable FieldType.maxDepth)
    (kept : Told known R told st) (few : (StructType.toldAll told types).length ≤ 2 ^ 31) :
    RunsIf sure (many (definition R) types.length) st (StructType.mentions told types).flatten
      fun peers st' => peers = types.map R.peer ∧ Told known R (StructType.toldAll told types) st' := by
  induction types generalizing told st with
  | nil => exact .pure ⟨rfl, kept⟩
  | cons s rest ih =>
    obtain ⟨known, others⟩ := List.forall_mem_cons.1 hs
    refine (runsIf_definition distinguished known (fun holds => legible holds s List.mem_cons_self) kept
      (fun s' member => named s' s (kept.members s' member).1 known)
      (Nat.le_trans (StructType.length_le_toldAll _ _) few)).bind ?_
    rintro _ st₁ ⟨rfl, -, kept₁, -⟩
    refine (ih others (fun holds s' member => legible holds s' (.tail _ member)) kept₁ few).then ?_
    rintro _ st₂ ⟨rfl, kept₂⟩
    exact .pure ⟨rfl, kept₂⟩

end Read

namespace Instance

/-- Mentions of structs with identifiers, by one writer, are read by a reader of the same registry as
these structs, each where it was mentioned. The definition of each struct is sent once, where it is
mentioned first. -/
theorem Reachable.definitions_in_step {i : Instance} (reachable : i.Reachable)
    (sane : i.fault = none) (compatible : i.config.compatible = true) {types : List StructType}
    (known : ∀ s ∈ types, i.registry.HasStruct s ∧ s.id.isSome) (short : ∀ s ∈ types, s.Short)
    (few : (types.map (·.qualifiedName)).eraseDups.length ≤ 2 ^ 31)
    (apart : HeadersApart (· ∈ types)) :
    ∃ bytes ws, Write.concat Write.definition types .initial = .ok (bytes, ws) ∧
      (∀ s ∈ types, s.definition.isSome) ∧
      bytes = (types.mapIdx fun k s => s.mentionAt types k).flatten ∧
      ∀ rest, ∃ peers st, Read.many (Read.definition i.registry) types.length
          (.ofBytes (bytes ++ rest) .empty) = .ok peers st ∧ st.reader.rest = rest ∧
        List.Forall₂ (fun s p => p.own = some s ∧ p.sameLayout = true ∧
          p.typeName = s.qualifiedName ∧ p.definition.fields = s.fields.map FieldEntry.ofField)
          types peers := by
  have built := reachable.sound.built sane
  have sound := reachable.sound.registry
  have described (s) (member : s ∈ types) : s.Described true := by
    obtain ⟨_, found⟩ := (known s member).1
    exact compatible ▸ reachable.described sane found
  have tellable (s) (member : s ∈ types) :=
    (described s member).tellable (short s member).ident (short s member).definition
      (short s member).tags (short s member).nesting
  have distinguished : Distinguished (· ∈ types) :=
    ⟨fun s member => (described s member).defined (tellable s member), apart⟩
  have named (s s') (hs : s ∈ types) (hs' : s' ∈ types)
      (same : s.qualifiedName = s'.qualifiedName) : s = s' := by
    obtain ⟨n, found⟩ := (known s hs).1
    obtain ⟨n', found'⟩ := (known s' hs').1
    rw [(built.built found).qualifiedName, (built.built found').qualifiedName] at same
    exact Option.some.inj (found.symm.trans (same ▸ found'))
  have defined (s) (member : s ∈ types) : s.definition.isSome := by
    obtain ⟨_, -, same⟩ := (described s member).definition rfl
    exact Option.isSome_iff_exists.2 ⟨_, same⟩
  have written := @Write.concat_definition _ [] .initial defined rfl
  have mentioned := @StructType.mentions_eq [] [] rfl types
  simp only [List.nil_append, List.length_nil, Nat.zero_add] at mentioned
  refine ⟨_, _, written, defined, by rw [mentioned], fun rest => ?_⟩
  have count : (StructType.toldAll [] types).length ≤ 2 ^ 31 := by
    have names := @StructType.map_toldAll [] [] rfl types
    rwa [← List.nil_append types, ← names, List.length_map] at few
  obtain ⟨_, st, p, read, rfl, -⟩ := (Read.runsIf_definitions True distinguished named
    (fun _ member => member) (fun _ => tellable) (.initial _ _ []) count).runs trivial 0 rest
  refine ⟨_, _, read, rfl, List.forall₂_map_right_iff.2 (List.forall₂_same.2 fun s member => ?_)⟩
  obtain ⟨⟨n, found⟩, identified⟩ := known s member
  obtain ⟨id, ident⟩ := Option.isSome_iff_exists.1 identified
  obtain ⟨header, after, define⟩ := distinguished.defined s member
  have own := Registry.structOf?_told sound built found ident ident header
  rw [define.peer_eq]
  refine ⟨Registry.own_peerOf own, ?_, Registry.typeName_peerOf own, rfl⟩
  rw [Registry.sameLayout_peerOf own, define.front]
  exact decide_eq_true rfl

/-- An instance in compatible mode that knows two structs. -/
def announcer : Instance :=
  [.setCompatible true, .registerStruct (some 1) ⟨.ofNames "demo" "A", none, false, []⟩,
    .registerStruct (some 2) ⟨.ofNames "demo" "B", none, false,
      [{ FieldDecl.ofShape "next" (.named "demo.A") with nullable := true }]⟩].foldl perform fresh

/-- The second mention of the first struct is its number alone. -/
theorem definitions_in_step_again : ∃ a b, a.qualifiedName = "demo.A" ∧ b.qualifiedName = "demo.B" ∧
    announcer.registry.HasStruct a ∧ announcer.registry.HasStruct b ∧
      ∃ bytes ws, Write.concat Write.definition [a, b, a] .initial = .ok (bytes, ws) ∧
        (∀ s ∈ [a, b, a], s.definition.isSome) ∧
        bytes = ([a, b, a].mapIdx fun k s => s.mentionAt [a, b, a] k).flatten ∧
        ∀ rest, ∃ peers st, Read.many (Read.definition announcer.registry) 3
            (.ofBytes (bytes ++ rest) .empty) = .ok peers st ∧ st.reader.rest = rest ∧
          List.Forall₂ (fun s p => p.own = some s ∧ p.sameLayout = true ∧ p.typeName = s.qualifiedName)
            [a, b, a] peers ∧
          peers.map (·.definition.fields) =
            [[], [⟨"next", none, .mk .compatibleStruct true false []⟩], []] := by
  have first : (announcer.registry.struct? "demo.A").any (fun s =>
      s.qualifiedName = "demo.A" ∧ s.id = some 1 ∧ s.Short ∧
        s.header? = some 5296476035748282370 ∧ s.fields = []) = true := by decide +kernel
  have second : (announcer.registry.struct? "demo.B").any (fun s =>
      s.qualifiedName = "demo.B" ∧ s.id = some 2 ∧ s.Short ∧
        s.header? ≠ some 5296476035748282370 ∧
          s.fields.map (fun f => (f.name, f.tag, f.fieldType.type, f.fieldType.nullable, f.tracked,
            f.fieldType.generics.isEmpty)) =
              [("next", none, .compatibleStruct, true, false, true)]) = true := by decide +kernel
  obtain ⟨a, foundA, checksA⟩ := (Option.any_eq_true _ _).1 first
  obtain ⟨b, foundB, checksB⟩ := (Option.any_eq_true _ _).1 second
  obtain ⟨namedA, identA, shortA, headerA, fieldsA⟩ := of_decide_eq_true checksA
  obtain ⟨namedB, identB, shortB, headerB, fieldsB⟩ := of_decide_eq_true checksB
  obtain ⟨f, fieldsB, parts⟩ := List.map_eq_singleton_iff.1 fieldsB
  have entry : FieldEntry.ofField f = ⟨"next", none, .mk .compatibleStruct true false []⟩ := by
    simp only [Prod.mk.injEq, List.isEmpty_iff] at parts
    simp [FieldEntry.ofField, FieldType.withTracked, parts]
  have members {P : StructType → Prop} (ha : P a) (hb : P b) : ∀ s ∈ [a, b, a], P s := by
    simp [ha, hb]
  have apart : HeadersApart (· ∈ [a, b, a]) := by
    rintro s s' hs hs' same
    have either {t : StructType} (member : t ∈ [a, b, a]) : t = a ∨ t = b := by
      simpa [or_comm, or_assoc] using member
    rcases either hs with rfl | rfl <;> rcases either hs' with rfl | rfl
    · rfl
    · exact absurd (same.symm.trans headerA) headerB
    · exact absurd (same.trans headerA) headerB
    · rfl
  have few : (([a, b, a].map (·.qualifiedName)).eraseDups).length ≤ 2 ^ 31 := by
    simp only [List.map_cons, List.map_nil, namedA, namedB]
    decide
  have reachable : announcer.Reachable := ⟨_, rfl⟩
  obtain ⟨bytes, ws, written, defined, mentioned, read⟩ :=
    reachable.definitions_in_step (by decide +kernel) (by decide +kernel)
      (members ⟨⟨_, foundA⟩, by rw [identA]; rfl⟩ ⟨⟨_, foundB⟩, by rw [identB]; rfl⟩)
      (members shortA shortB) few apart
  refine ⟨a, b, namedA, namedB, ⟨_, foundA⟩, ⟨_, foundB⟩, bytes, ws, written, defined, mentioned,
    fun rest => ?_⟩
  obtain ⟨peers, st, run, rest', same⟩ := read rest
  have entries : peers.map (·.definition.fields) = [a, b, a].map fun s => s.fields.map FieldEntry.ofField :=
    (List.forall₂_eq_eq_eq ▸ List.forall₂_map_left_iff.2 (List.forall₂_map_right_iff.2
      (same.flip.imp fun _ _ h => h.2.2.2)))
  refine ⟨peers, st, run, rest', same.imp fun _ _ h => ⟨h.1, h.2.1, h.2.2.1⟩, ?_⟩
  rw [entries]
  simp only [List.map_cons, List.map_nil, fieldsA, fieldsB, entry]

end Instance

end Graphwire
