import Graphwire.Proofs.Consumption
import Graphwire.Proofs.Guardrails
import Graphwire.Proofs.History

/-!
# Accepted frames are prefix-free

A reader that succeeds has looked at nothing beyond the bytes that it took. With more bytes after
them it takes the same ones, decides the same and stands at the same place, before the bytes that were
added. So when a frame is accepted, the same frame with a tail is read to the end of the frame and then
refused, and what is accepted with a tail is not accepted without it. This holds of an instance in
any state: a definition from the cache is moved over in the input as it is parsed from it, and a size
that an input declares is compared with a ceiling, never with the bytes that are left.
-/

namespace Graphwire

set_option autoImplicit false

/-! ## Decoders -/

/-- The reader when more bytes follow the input. -/
def Reader.followedBy (r : Reader) (more : List UInt8) : Reader := ⟨r.position, r.rest ++ more⟩

namespace Decode

variable {α β : Type}

/-- Whether a decoder that succeeds does the same when more bytes follow the input. -/
def Prolongs (d : Decode α) : Prop :=
  ∀ more r a r', d r = .ok a r' → d (r.followedBy more) = .ok a (r'.followedBy more)

namespace Prolongs

theorem pure (a : α) : Prolongs (pure a) := by
  intro more r b r' run
  cases run
  rfl

theorem throw (e : Error) : Prolongs (throw e : Decode α) := fun _ _ _ _ run => by cases run

theorem bind {d : Decode α} {f : α → Decode β} (hd : Prolongs d) (hf : ∀ a, Prolongs (f a)) :
    Prolongs (d >>= f) := by
  intro more r b r' run
  obtain ⟨a, s, first, then_⟩ := ok_of_bind run
  show EStateM.bind d f _ = _
  unfold EStateM.bind
  rw [hd more r a s first]
  exact hf a more s b r' then_

theorem map {d : Decode α} (hd : Prolongs d) (f : α → β) : Prolongs (f <$> d) := by
  rw [map_eq_pure_bind]
  exact hd.bind fun _ => pure _

end Prolongs

/-! ### Numbers -/

theorem prolongs_bytes (n : Nat) : Prolongs (bytes n) := by
  intro more r octets r' run
  unfold bytes at run ⊢
  rw [bind_of_get] at run ⊢
  cases found : splitExactly n r.rest with
  | none =>
    rw [found] at run
    cases run
  | some parts =>
    obtain ⟨front, back⟩ := parts
    rw [found] at run
    cases run
    obtain ⟨size, split⟩ := splitExactly_eq_some_iff.1 found
    have same : splitExactly n (r.followedBy more).rest = some (octets, back ++ more) :=
      splitExactly_eq_some_iff.2 ⟨size, by rw [Reader.followedBy, split, List.append_assoc]⟩
    rw [same]
    rfl

theorem prolongs_octet : Prolongs octet := by
  intro more r n r' run
  rw [octet_eq] at run ⊢
  exact (prolongs_bytes 1).map _ more r n r' run

theorem prolongs_littleEndian (width : Nat) : Prolongs (littleEndian width) :=
  (prolongs_bytes width).bind fun _ => .pure _

theorem prolongs_signed (width : Nat) : Prolongs (signed width) :=
  (prolongs_littleEndian width).bind fun _ => .pure _

theorem prolongs_groups {last : Decode Nat} (h : Prolongs last) (left : Nat) :
    Prolongs (groups last left) := by
  induction left with
  | zero => exact h
  | succ left ih =>
    refine prolongs_octet.bind fun b => ?_
    split
    · exact .pure _
    · exact ih.bind fun _ => .pure _

theorem prolongs_varuint32 : Prolongs varuint32 :=
  (prolongs_groups (.throw _) 5).bind fun _ => .pure _

theorem prolongs_varuint64 : Prolongs varuint64 := prolongs_groups prolongs_octet 8

theorem prolongs_varint32 : Prolongs varint32 := prolongs_varuint32.bind fun _ => .pure _

theorem prolongs_varint64 : Prolongs varint64 := prolongs_varuint64.bind fun _ => .pure _

/-- The tag stands in the first byte that either form takes. -/
theorem prolongs_tagged {small large : Decode α} (hs : Prolongs small) (hl : Prolongs large) :
    Prolongs (tagged small large) := by
  intro more r a r' run
  unfold tagged at run ⊢
  rw [bind_of_get] at run ⊢
  obtain ⟨head, s, first, then_⟩ := ok_of_bind run
  show EStateM.bind octet _ _ = _
  unfold EStateM.bind
  rw [prolongs_octet more r head s first]
  dsimp only
  split at then_
  · rename_i clear
    rw [if_pos clear]
    exact hs more r a r' then_
  · rename_i set
    rw [if_neg set]
    exact hl more s a r' then_

theorem prolongs_taggedInt64 : Prolongs taggedInt64 :=
  prolongs_tagged ((prolongs_signed 4).bind fun _ => .pure _) (prolongs_signed 8)

theorem prolongs_taggedUint64 : Prolongs taggedUint64 :=
  prolongs_tagged ((prolongs_littleEndian 4).bind fun _ => .pure _) (prolongs_littleEndian 8)

theorem prolongs_bool : Prolongs bool := prolongs_octet.bind fun _ => .pure _

theorem prolongs_refFlag : Prolongs refFlag := by
  refine (prolongs_signed 1).bind fun code => ?_
  split
  · exact .pure _
  · exact .throw _

/-! ### Scalars -/

theorem prolongs_utf8 (role : TextRole) (octets : List UInt8) : Prolongs (utf8 role octets) := by
  unfold utf8
  split
  · exact .pure _
  · exact .throw _

theorem prolongs_utf16 (octets : List UInt8) : Prolongs (utf16 octets) := by
  unfold utf16
  split
  · exact .throw _
  · split
    · exact .pure _
    · exact .throw _

theorem prolongs_textHeader : Prolongs textHeader := prolongs_varuint64.bind fun _ => .pure _

theorem prolongs_textPayload (encoding length : Nat) : Prolongs (textPayload encoding length) := by
  refine (prolongs_bytes length).bind fun octets => ?_
  split
  · exact prolongs_utf8 _ _
  · split
    · exact .pure _
    · split
      · exact prolongs_utf16 _
      · exact .throw _

theorem prolongs_integer (kind : IntKind) (layout : IntLayout) : Prolongs (integer kind layout) := by
  have last : ∀ {d : Decode Int}, Prolongs d →
      Prolongs (d >>= fun n => Pure.pure (Value.int (.wrap kind n))) :=
    fun h => h.bind fun _ => .pure _
  unfold integer
  cases layout with
  | fixed =>
    dsimp only
    split
    · exact last (prolongs_signed _)
    · exact last ((prolongs_littleEndian _).map _)
  | groups =>
    dsimp only
    split
    · split
      · exact last prolongs_varint64
      · exact last (prolongs_varuint64.map _)
    · split
      · exact last prolongs_varint32
      · exact last (prolongs_varuint32.map _)
  | tagged =>
    dsimp only
    split
    · exact last prolongs_taggedInt64
    · exact last (prolongs_taggedUint64.map _)

theorem prolongs_float32 : Prolongs float32 := (prolongs_littleEndian 4).bind fun _ => .pure _

theorem prolongs_float64 : Prolongs float64 := (prolongs_littleEndian 8).bind fun _ => .pure _

theorem prolongs_day : Prolongs day := by
  refine (prolongs_signed 4).bind fun count => ?_
  split
  · exact .pure _
  · exact .throw _

theorem prolongs_instant : Prolongs instant := by
  refine (prolongs_signed 8).bind fun micros => ?_
  split
  · exact .pure _
  · exact .throw _

theorem prolongs_span : Prolongs span := by
  refine prolongs_varint64.bind fun seconds => (prolongs_signed 4).bind fun nanos => ?_
  split
  · exact .pure _
  · exact .throw _

/-! ### Definitions -/

theorem prolongs_size {small limit : Nat} :
    Prolongs (if small = limit then (limit + ·) <$> varuint32 else Pure.pure small) := by
  split
  · exact prolongs_varuint32.map _
  · exact .pure _

/-- A layer is cut out before it is looked at, so that nothing behind it matters. -/
theorem prolongs_within (layer : List UInt8) (inner : Decode α) : Prolongs (within layer inner) := by
  unfold within
  split
  · exact .pure _
  · exact .throw _

theorem prolongs_skipAfter (header : Int) : Prolongs (TypeDefinition.skipAfter header) :=
  prolongs_size.bind fun size => (prolongs_bytes size).bind fun _ => .pure _

theorem prolongs_decodeAfter (header : Int) : Prolongs (TypeDefinition.decodeAfter header) :=
  prolongs_size.bind fun size => (prolongs_bytes size).bind fun layer => prolongs_within layer _

theorem prolongs_head : Prolongs head := by
  have refused : ∀ (e : Error) (f : PUnit → Decode Bool), Prolongs (throw e >>= f) := by
    intro e f more r a r' run
    obtain ⟨_, _, first, _⟩ := ok_of_bind run
    cases first
  refine (prolongs_littleEndian 2).bind fun magic => ?_
  dsimp only
  split
  · exact refused _ _
  · refine prolongs_octet.bind fun flags => ?_
    split
    · exact refused _ _
    · split
      · exact refused _ _
      · exact .pure _

end Decode

/-! ## Readers -/

/-- The state when more bytes follow the input. The notes of where definitions stood see them, too. -/
def ReadState.followedBy (s : ReadState) (more : List UInt8) : ReadState :=
  { s with
    reader := s.reader.followedBy more
    met := s.met.map fun e => (e.1, e.2.followedBy more) }

namespace Read

variable {α β : Type}

/-- Whether a step that succeeds does the same when more bytes follow the input. -/
def Prolongs (m : Read α) : Prop :=
  ∀ more s a t, m s = .ok a t → m (s.followedBy more) = .ok a (t.followedBy more)

namespace Prolongs

theorem pure (a : α) : Prolongs (pure a : Read α) := by
  intro more s b t run
  cases run
  rfl

theorem throw (e : Error) : Prolongs (throw e : Read α) := fun _ _ _ _ run => by cases run

theorem bind {m : Read α} {f : α → Read β} (hm : Prolongs m) (hf : ∀ a, Prolongs (f a)) :
    Prolongs (m >>= f) := by
  intro more s b t run
  rw [bind_apply] at run
  cases first : m s with
  | ok a s' =>
    rw [first] at run
    rw [bind_of_ok (hm more s a s' first)]
    exact hf a more s' b t run
  | error e s' =>
    rw [first] at run
    cases run

theorem map {m : Read α} (hm : Prolongs m) (f : α → β) : Prolongs (f <$> m) := by
  rw [map_eq_pure_bind]
  exact hm.bind fun _ => pure _

/-- A refusal in front of other steps. -/
theorem refused (e : Error) (f : α → Read β) : Prolongs (MonadExcept.throw e >>= f) :=
  fun _ _ _ _ run => by cases run

theorem decode {d : Decode α} (h : d.Prolongs) : Prolongs (decode d) := by
  intro more s a t run
  unfold Read.decode at run ⊢
  cases first : d s.reader with
  | ok b r =>
    rw [first] at run
    cases run
    have same : d (s.followedBy more).reader = .ok a (r.followedBy more) :=
      h more s.reader a r first
    rw [same]
    rfl
  | error e r =>
    rw [first] at run
    cases run

theorem check (x : Except Error α) : Prolongs (check x) := by
  cases x with
  | ok a => exact pure a
  | error e => exact throw e

/-- A step that looks only at what is known apart from the input, and commutes with what follows
it. -/
theorem modify {f : ReadState → ReadState}
    (h : ∀ more s, f (s.followedBy more) = (f s).followedBy more) : Prolongs (modify f) := by
  intro more s a t run
  cases run
  show EStateM.Result.ok () (f (s.followedBy more)) = _
  rw [h]

theorem many {one : Read α} (h : Prolongs one) (n : Nat) : Prolongs (many one n) := by
  induction n with
  | zero => exact pure _
  | succ n ih => exact h.bind fun _ => ih.bind fun _ => pure _

theorem each {one : α → Read Unit} (items : List α) (h : ∀ a, Prolongs (one a)) :
    Prolongs (each one items) := by
  induction items with
  | nil => exact pure _
  | cons a items ih => exact (h a).bind fun _ => ih

end Prolongs

/-! ### Nodes and references -/

theorem prolongs_alloc (n : Node) : Prolongs (alloc n) := by
  intro more s h t run
  cases run
  rfl

theorem prolongs_setNode (h : Handle) (n : Node) : Prolongs (setNode h n) :=
  .modify fun _ _ => rfl

theorem prolongs_instantiate (template : Template) : Prolongs (instantiate template) := by
  intro more s v t run
  cases run
  rfl

theorem prolongs_publish (slot : Option Nat) (v : Value) : Prolongs (publish slot v) := by
  cases slot with
  | none => exact .pure _
  | some number => exact .modify fun _ _ => rfl

theorem prolongs_reserve : Prolongs reserve := by
  intro more s number t run
  cases run
  rfl

theorem prolongs_resolve (number : Nat) : Prolongs (resolve number) :=
  fun more s v t run => Prolongs.check (s.slots.resolve number) more s v t run

theorem prolongs_setField (h : Handle) (name : String) (v : Value) : Prolongs (setField h name v) := by
  intro more s a t run
  rw [setField_apply] at run ⊢
  cases run
  rfl

/-! ### Types in front of values -/

theorem prolongs_text (limits : SizeLimits) : Prolongs (text limits) :=
  (Prolongs.decode Decode.prolongs_textHeader).bind fun _ => (Prolongs.check _).bind fun _ =>
    .decode (Decode.prolongs_textPayload _ _)

/-- A definition from the cache is moved over as it would be parsed. -/
theorem prolongs_definitionAfter (r : Registry) (header : Int) :
    Prolongs (definitionAfter r header) := by
  intro more s p t run
  cases found : s.cache.get? header with
  | some q =>
    rw [definitionAfter_of_hit found] at run
    rw [definitionAfter_of_hit (s := s.followedBy more) found]
    exact (Prolongs.decode (Decode.prolongs_skipAfter header)).bind (fun _ => .pure q) more s p t run
  | none =>
    have parsed : Prolongs (parsedAfter r header) :=
      (Prolongs.decode (Decode.prolongs_decodeAfter header)).map _
    rw [definitionAfter_of_miss found] at run
    rw [definitionAfter_of_miss (s := s.followedBy more) found]
    exact parsed.bind (fun q => (Prolongs.modify fun _ _ => rfl).bind fun _ => .pure q) more s p t run

theorem prolongs_note (header : Int) : Prolongs (note header) := by
  refine .modify fun more s => ?_
  simp only [ReadState.followedBy, List.map_append, List.map_cons, List.map_nil]

theorem prolongs_definition (r : Registry) : Prolongs (definition r) := by
  refine (Prolongs.decode Decode.prolongs_varuint32).bind fun marker => ?_
  refine Prolongs.bind (fun more s l t run => by cases run; rfl) fun received => ?_
  split
  · split
    · exact .pure _
    · exact .throw _
  · split
    · exact .throw _
    · exact (Prolongs.decode (Decode.prolongs_signed 8)).bind fun header =>
        (prolongs_note header).bind fun _ => (prolongs_definitionAfter r header).bind fun p =>
          (Prolongs.modify fun _ _ => rfl).bind fun _ => .pure _

variable {env : Environment}

theorem prolongs_typeInfo (env : Environment) : Prolongs (typeInfo env) := by
  refine (Prolongs.decode Decode.prolongs_octet).bind fun kind => ?_
  dsimp only
  split
  · exact (Prolongs.decode Decode.prolongs_varuint32).bind fun _ =>
      (Prolongs.check _).bind fun _ => .check _
  · split
    · exact (prolongs_text _).bind fun _ => (prolongs_text _).bind fun _ =>
        (Prolongs.check _).bind fun _ => .check _
    · split
      · refine (prolongs_definition _).bind fun p => ?_
        split
        · exact .refused _ _
        · exact .pure _
      · split
        · exact .pure _
        · exact .throw _

/-! ### Values -/

theorem prolongs_scalar (limits : SizeLimits) (t : TypeId) : Prolongs (scalar limits t) := by
  unfold scalar
  split
  · exact .decode (Decode.prolongs_bool.map _)
  · exact .decode (Decode.prolongs_integer _ _)
  · exact .decode Decode.prolongs_float32
  · exact .decode Decode.prolongs_float64
  · exact (prolongs_text _).map _
  · exact (Prolongs.decode Decode.prolongs_varuint32).bind fun size =>
      (Prolongs.check _).bind fun _ => (Prolongs.decode (Decode.prolongs_bytes size)).bind fun _ =>
        .pure _
  · exact .decode Decode.prolongs_day
  · exact .decode Decode.prolongs_instant
  · exact .decode Decode.prolongs_span
  · exact .throw _

theorem prolongs_elementHeader (shape : Option Shape) : Prolongs (elementHeader shape) := by
  refine (Prolongs.decode Decode.prolongs_octet).bind fun byte => ?_
  split
  · exact .throw _
  · split
    · exact .throw _
    · exact .pure _

theorem prolongs_newRecord (typeName : String) (slot : Option Nat) :
    Prolongs (newRecord typeName slot) :=
  (prolongs_alloc _).bind fun _ => (prolongs_publish _ _).bind fun _ => .pure _

theorem prolongs_fillMissing (h : Handle) (f : Field) : Prolongs (fillMissing h f) := by
  refine (Prolongs.check _).bind fun default => ?_
  split
  · exact (Prolongs.modify fun _ _ => rfl).bind fun _ => (prolongs_instantiate _).bind fun _ =>
      prolongs_setField _ _ _
  · exact .pure _

theorem prolongs_keepField (p : PeerStruct) (h : Handle) (f : PeerField) (v : Value) :
    Prolongs (keepField p h f v) := by
  unfold keepField
  split
  · split
    · refine (Prolongs.modify fun _ _ => rfl).bind fun _ => ?_
      split
      · exact .pure _
      · exact prolongs_fillMissing _ _
    · exact prolongs_setField _ _ _
  · split
    · exact .pure _
    · exact prolongs_setField _ _ _
  · exact .modify fun _ _ => rfl

/-- Whether a reader of payloads is indifferent to what follows the input. -/
def ProlongsPayloads (inner : ReadPayload) : Prop :=
  ∀ wire shape slot, Prolongs (inner wire shape slot)

section

variable {inner : ReadPayload} (payloads : ProlongsPayloads inner)

include payloads

theorem prolongs_typed (hasType : Bool) (shape : Shape) (slot : Option Nat) :
    Prolongs (typed env inner hasType shape slot) := by
  unfold typed
  cases hasType with
  | true => exact (prolongs_typeInfo env).bind fun wire => payloads wire shape slot
  | false => exact (Prolongs.check _).bind fun wire => payloads wire shape slot

theorem prolongs_marked (mode : RefMode) (hasType : Bool) (shape : Shape) :
    Prolongs (marked env inner mode hasType shape) := by
  unfold marked
  split
  · exact prolongs_typed payloads hasType shape none
  · refine (Prolongs.decode Decode.prolongs_refFlag).bind fun flag => ?_
    split
    · exact .pure _
    · exact prolongs_typed payloads hasType shape none
    · exact (Prolongs.decode Decode.prolongs_varuint32).bind fun number => prolongs_resolve number
    · exact prolongs_reserve.bind fun number =>
        (prolongs_typed payloads hasType shape (some number)).bind fun v =>
          (prolongs_publish _ v).bind fun _ => .pure _
    · exact .throw _

theorem prolongs_items (node : List Value → Node) (shape : Shape) (slot : Option Nat) :
    Prolongs (items env inner node shape slot) := by
  refine (Prolongs.decode Decode.prolongs_varuint32).bind fun length =>
    (Prolongs.check _).bind fun _ => (prolongs_alloc _).bind fun h =>
      (prolongs_publish slot _).bind fun _ => ?_
  split
  · exact .pure _
  · exact (prolongs_elementHeader _).bind fun header =>
      (Prolongs.many (prolongs_marked payloads _ _ _) length).bind fun elements =>
        (prolongs_setNode h _).bind fun _ => .pure _

theorem prolongs_entries (shape : Shape) (slot : Option Nat) :
    Prolongs (entries env inner shape slot) := by
  refine (Prolongs.decode Decode.prolongs_varuint32).bind fun length =>
    (Prolongs.check _).bind fun _ => (prolongs_alloc _).bind fun h =>
      (prolongs_publish slot _).bind fun _ => ?_
  split
  · exact .pure _
  · refine (prolongs_elementHeader _).bind fun keyHeader =>
      (prolongs_elementHeader _).bind fun valueHeader =>
        (Prolongs.many ?_ length).bind fun pairs => (prolongs_setNode h _).bind fun _ => .pure _
    exact (prolongs_marked payloads _ _ _).bind fun key =>
      (prolongs_marked payloads _ _ _).bind fun value => .pure _

theorem prolongs_field (s : StructType) (h : Handle) (f : Field) :
    Prolongs (field env inner s h f) := by
  refine (prolongs_marked payloads _ _ _).bind fun v => ?_
  split
  · exact .modify fun _ _ => rfl
  · exact prolongs_setField _ _ _

theorem prolongs_fields (s : StructType) (h : Handle) : Prolongs (fields env inner s h) := by
  unfold fields
  split
  · exact .each _ (prolongs_field payloads s h)
  · refine .each _ fun step => ?_
    cases step with
    | run positions width =>
      exact (Prolongs.decode (Decode.prolongs_bytes width)).bind fun bytes =>
        (Prolongs.check _).bind fun values => .each _ fun _ => prolongs_setField _ _ _
    | field position => exact .each _ (prolongs_field payloads s h)

theorem prolongs_record (s : StructType) (strict : Bool) (slot : Option Nat) :
    Prolongs (record env inner s strict slot) := by
  unfold record
  have body : Prolongs (do
      let h ← newRecord s.qualifiedName slot
      fields env inner s h
      return Value.handle h) :=
    (prolongs_newRecord _ _).bind fun h => (prolongs_fields payloads s h).bind fun _ =>
      .pure _
  cases strict with
  | true =>
    exact (Prolongs.decode (Decode.prolongs_signed 4)).bind fun _ =>
      (Prolongs.check _).bind fun _ => body
  | false => exact body

theorem prolongs_reconciled (p : PeerStruct) (slot : Option Nat) :
    Prolongs (reconciled env inner p slot) :=
  (prolongs_newRecord _ _).bind fun h =>
    (Prolongs.each _ fun f => (prolongs_marked payloads _ _ _).bind fun v =>
      prolongs_keepField p h f v).bind fun _ =>
    (Prolongs.each _ fun f => prolongs_fillMissing h f).bind fun _ => .pure _

theorem prolongs_peerRecord (p : PeerStruct) (slot : Option Nat) :
    Prolongs (peerRecord env inner p slot) := by
  unfold peerRecord
  split
  · exact prolongs_record payloads _ _ _
  · exact prolongs_reconciled payloads p slot

end

theorem prolongs_layer {deeper : Option ReadPayload}
    (payloads : ∀ inner ∈ deeper, ProlongsPayloads inner) : ProlongsPayloads (layer env deeper) := by
  have descend : ∀ {f : ReadPayload → Read Value},
      (∀ inner, ProlongsPayloads inner → Prolongs (f inner)) →
      Prolongs (check (env.descend deeper) >>= f) := by
    intro f h
    cases deeper with
    | none => exact .refused _ _
    | some inner => exact h inner (payloads inner rfl)
  intro wire shape slot
  cases wire with
  | builtin t =>
    simp only [layer]
    split
    · refine descend fun inner payloads => ?_
      unfold container
      split
      · exact prolongs_entries payloads shape slot
      · exact prolongs_items payloads _ shape slot
    · exact prolongs_scalar _ t
  | struct s strict => exact descend fun inner payloads => prolongs_record payloads s strict slot
  | peer p => exact descend fun inner payloads => prolongs_peerRecord payloads p slot
  | «enum» typeName members =>
    refine (Prolongs.decode Decode.prolongs_varuint32).bind fun ordinal => ?_
    split
    · exact .pure _
    · exact .throw _

theorem prolongs_payload (levels : Nat) : ProlongsPayloads (payload env levels) := by
  induction levels with
  | zero => exact prolongs_layer fun _ h => by cases h
  | succ levels ih => exact prolongs_layer fun inner h => by cases h; exact ih

/-! ### Frames -/

/-- What a frame holds, without a look at what follows it. -/
def contents (env : Environment) (mode : RefMode) : Read Value := do
  let isNull ← decode Decode.head
  if isNull then pure .null else value env mode true .dynamic

theorem prolongs_contents (mode : RefMode) : Prolongs (contents env mode) := by
  refine (Prolongs.decode Decode.prolongs_head).bind fun isNull => ?_
  split
  · exact .pure _
  · exact prolongs_marked (prolongs_payload _) mode true .dynamic

/-- A frame is refused for the bytes that are left after its contents, and only for them. -/
theorem frame_eq (mode : RefMode) (s : ReadState) :
    frame env mode s =
      match contents env mode s with
      | .ok v t =>
        if t.reader.remaining = 0 then .ok v t else .error (.trailingBytes t.reader.remaining) t
      | .error e t => .error e t := by
  have split : frame env mode = contents env mode >>= fun v => do
      let remaining := (← get).reader.remaining
      if remaining ≠ 0 then throw (.trailingBytes remaining)
      return v := by
    unfold frame contents
    rw [bind_assoc]
    congr 1
    funext isNull
    cases isNull <;> rfl
  rw [split, bind_apply]
  cases contents env mode s with
  | error e t => rfl
  | ok v t =>
    have ended : ∀ n : Nat, (do
        if n ≠ 0 then throw (.trailingBytes n)
        return v : Read Value) t = if n = 0 then .ok v t else .error (.trailingBytes n) t := by
      intro n
      by_cases none : n = 0
      · rw [if_pos none, if_neg (not_not_intro none)]
        rfl
      · rw [if_neg none, if_pos none]
        rfl
    exact ended t.reader.remaining

/-- What reads a frame to its end reads it as far when more bytes follow, and refuses them. -/
theorem frame_followedBy {mode : RefMode} {s t : ReadState} {v : Value} {more : List UInt8}
    (read : frame env mode s = .ok v t) (longer : more ≠ []) :
    frame env mode (s.followedBy more) = .error (.trailingBytes more.length) (t.followedBy more) := by
  rw [frame_eq] at read ⊢
  cases contained : contents env mode s with
  | error e u =>
    rw [contained] at read
    cases read
  | ok w u =>
    rw [contained] at read
    dsimp only at read
    split at read
    · rename_i ended
      cases read
      have left : (t.followedBy more).reader.remaining = more.length := by
        have nothing : t.reader.rest = [] := List.eq_nil_of_length_eq_zero ended
        show (t.reader.rest ++ more).length = more.length
        rw [nothing, List.nil_append]
      rw [prolongs_contents mode more s v t contained]
      dsimp only
      rw [left, if_neg fun none => longer (List.eq_nil_of_length_eq_zero none)]
    · cases read

end Read

namespace Instance

/-- Accepted frames are prefix-free. A frame that is accepted is refused when more bytes follow it,
with their number; so what is accepted with more bytes is refused without them. Both are read by the
instance in one and the same state. -/
theorem deserialize_prefix_free (i : Instance) (bytes : List UInt8) {more : List UInt8}
    (longer : more ≠ []) :
    (∀ p, (i.deserialize bytes).1 = .ok p →
      (i.deserialize (bytes ++ more)).1 = .error (.trailingBytes more.length)) ∧
    (∀ p, (i.deserialize (bytes ++ more)).1 = .ok p → ∃ e, (i.deserialize bytes).1 = .error e) := by
  have refused : ∀ p, (i.deserialize bytes).1 = .ok p →
      (i.deserialize (bytes ++ more)).1 = .error (.trailingBytes more.length) := by
    intro p accepted
    cases fault : i.fault with
    | some e =>
      rw [i.deserialize_of_fault bytes fault] at accepted
      cases accepted
    | none =>
      rw [i.deserialize_of_sane _ fault] at accepted ⊢
      cases read : Read.frame i.environment i.rootMode (.ofBytes bytes i.cache) with
      | error e t =>
        rw [read] at accepted
        cases accepted
      | ok v t =>
        have further : Read.frame i.environment i.rootMode (.ofBytes (bytes ++ more) i.cache) =
            .error (.trailingBytes more.length) (t.followedBy more) :=
          Read.frame_followedBy read longer
        rw [further]
  refine ⟨refused, fun p accepted => ?_⟩
  cases shorter : (i.deserialize bytes).1 with
  | error e => exact ⟨e, rfl⟩
  | ok q =>
    rw [refused q shorter] at accepted
    cases accepted

/-- A list of two truth values, with a byte after it. -/
theorem deserialize_flags_followed :
    ([0] : List UInt8) ≠ [] ∧ (fresh.deserialize flagsFrame).1.toOption.isSome = true ∧
      (∀ p, (fresh.deserialize flagsFrame).1 = .ok p →
        (fresh.deserialize (flagsFrame ++ [0])).1 = .error (.trailingBytes [(0 : UInt8)].length)) ∧
      (∀ p, (fresh.deserialize (flagsFrame ++ [0])).1 = .ok p →
        ∃ e, (fresh.deserialize flagsFrame).1 = .error e) :=
  ⟨by decide, by decide +kernel, deserialize_prefix_free fresh flagsFrame (by decide)⟩

end Instance

end Graphwire
