import Graphwire.Proofs.Encodings
import Graphwire.Proofs.Tables
import Graphwire.Registry.Types

/-!
# Definitions that come back

What a definition is made of is read back from its bytes: types of fields with all their parts, the
entries of fields, and the layer under a header. A reader stops where the definition ends, also one
that only moves over it. Types may be nested deeper than a reader goes, and then it refuses; that is
the only way in which it can fail, so it never takes a definition for another one.
-/

namespace Graphwire

set_option autoImplicit false

open Decode (Yields YieldsIf)

/-! ## Sizes and names -/

namespace Decode

/-- A size of which only the part up to a limit stands in a header. -/
theorem YieldsIf.continued {β : Type} {sure c : Prop} [Decidable c] {limit size small : Nat}
    (full : c ↔ limit ≤ size) (header : small = min limit size) (bound : size < 2 ^ 32)
    {f : Nat → Decode β} {back : List UInt8} {b : β} (h : YieldsIf sure (f size) back b) :
    YieldsIf sure (if c then ((limit + ·) <$> varuint32) >>= f else Pure.pure small >>= f)
      ((if limit ≤ size then Encode.varuint32 (size - limit) else []) ++ back) b := by
  by_cases large : limit ≤ size
  · rw [if_pos (full.2 large), if_pos large]
    have rest := (yields_varuint32 (n := size - limit) (by omega)).map (limit + ·)
    rw [show limit + (size - limit) = size by omega] at rest
    exact rest.yieldsIf.bind h
  · rw [if_neg (mt full.1 large), if_neg large, show small = size by omega, pure_bind]
    exact h

theorem yields_utf8 (role : TextRole) (s : String) : Yields (utf8 role (Utf8.encode s)) [] s := by
  simp only [utf8, Utf8.decode_encode]
  exact .pure s

/-- A header byte with the length of a name, or with the limit. -/
theorem yields_nameAfter {name : String} (bound : (Utf8.encode name).length < 2 ^ 32) {b : UInt8}
    (header : b.toNat = 4 * min 63 (Utf8.encode name).length) :
    Yields definitionName
      (b :: ((if 63 ≤ (Utf8.encode name).length then
        Encode.varuint32 ((Utf8.encode name).length - 63) else []) ++ Utf8.encode name)) name := by
  have bytes := (yields_bytes (Utf8.encode name)).then (yields_utf8 .typeName name)
  generalize (Utf8.encode name).length = length at bound header bytes ⊢
  rw [← List.singleton_append]
  refine (yields_octet b).bind ?_
  rw [if_neg (by omega)]
  refine (YieldsIf.continued ?_ ?_ bound bytes.yieldsIf).yields trivial <;> omega

theorem yields_definitionName {name : String} (bound : (Utf8.encode name).length < 2 ^ 32) :
    Yields definitionName (Encode.definitionName name) name := by
  unfold Encode.definitionName
  dsimp only
  by_cases large : 63 ≤ (Utf8.encode name).length
  · have named := yields_nameAfter bound (b := 252)
      (by rw [Nat.min_eq_left large]; rfl)
    rwa [if_pos large] at named ⊢
  · have named := yields_nameAfter bound (b := (4 * (Utf8.encode name).length).toUInt8)
      (by simp; omega)
    rwa [if_neg large] at named ⊢

theorem yieldsIf_many {α : Type} (sure : Prop) (one : Decode α)
    {encode : α → Except Error (List UInt8)} {items : List α} {encoded : List (List UInt8)}
    (h : items.mapM encode = .ok encoded)
    (each : ∀ a ∈ items, ∀ bytes, encode a = .ok bytes → bytes.length ≤ encoded.flatten.length →
      YieldsIf sure one bytes a) : YieldsIf sure (many one items.length) encoded.flatten items := by
  induction mapM_eq_ok_iff.1 h with
  | nil => exact (Yields.pure []).yieldsIf
  | cons first written ih =>
    have rest := ih (mapM_eq_ok_iff.2 written) fun b member bytes' written le =>
      each b (List.mem_cons_of_mem _ member) bytes' written
        (Nat.le_trans le (by simp))
    exact (each _ List.mem_cons_self _ first (by simp)).bind (rest.then (Yields.pure _).yieldsIf)

theorem yieldsIf_within {α : Type} {sure : Prop} {d : Decode α} {bytes : List UInt8} {a : α}
    (h : YieldsIf sure d bytes a) : YieldsIf sure (within bytes d) [] a := by
  have start := h 0 []
  rw [List.append_nil] at start
  unfold within
  rcases start with ⟨p, run⟩ | ⟨unsure, e, r, run⟩
  · rw [show d.run (.ofBytes bytes) = .ok a ⟨p, []⟩ from run]
    exact (Yields.pure a).yieldsIf
  · rw [show d.run (.ofBytes bytes) = .error e r from run]
    exact .throw unsure e

end Decode

/-! ## Types of fields -/

/-- How many parts the types of a kind have. -/
def TypeId.arity (t : TypeId) : Nat := if t = .list ∨ t = .set then 1 else if t = .map then 2 else 0

namespace FieldType

/-- Whether a part of a type can be told with at most so many levels: its code leaves room for two
flags, and it has as many parts as its kind. -/
def Fits : Nat → FieldType → Prop
  | 0, _ => False
  | levels + 1, f =>
    f.type.code < 2 ^ 30 ∧ f.generics.length = f.type.arity ∧ ∀ g ∈ f.generics, Fits levels g

instance decidableFits : (levels : Nat) → (f : FieldType) → Decidable (f.Fits levels)
  | 0, _ => .isFalse id
  | levels + 1, f =>
    have := decidableFits levels
    inferInstanceAs (Decidable (f.type.code < 2 ^ 30 ∧ f.generics.length = f.type.arity ∧
      ∀ g ∈ f.generics, g.Fits levels))

/-- Whether the type of a field can be told. It has no flags at the top. -/
structure Tellable (levels : Nat) (f : FieldType) : Prop where
  code : f.type.code < 2 ^ 32
  arity : f.generics.length = f.type.arity
  parts : ∀ g ∈ f.generics, g.Fits levels

instance (levels : Nat) (f : FieldType) : Decidable (f.Tellable levels) :=
  decidable_of_iff (f.type.code < 2 ^ 32 ∧ f.generics.length = f.type.arity ∧
      ∀ g ∈ f.generics, g.Fits levels)
    ⟨fun h => ⟨h.1, h.2.1, h.2.2⟩, fun h => ⟨h.code, h.arity, h.parts⟩⟩

/-- The parts are read back if each of them is. -/
theorem yieldsIf_parts (sure : Prop) {part : Decode FieldType} {t : TypeId}
    {generics : List FieldType} (arity : generics.length = t.arity)
    (each : ∀ g ∈ generics, YieldsIf sure part g.encodePart g) :
    YieldsIf sure (decodeParts part t) (encodeParts t generics) generics := by
  unfold TypeId.arity at arity
  unfold decodeParts
  split_ifs at arity ⊢ with one two
  · obtain ⟨g, rfl⟩ := List.length_eq_one_iff.1 arity
    rw [encodeParts, if_pos one]
    exact (each g (by simp)).then (Yields.pure _).yieldsIf
  · obtain ⟨k, v, rfl⟩ := List.length_eq_two.1 arity
    rw [encodeParts, if_neg one, if_pos two]
    exact (each k (by simp)).bind ((each v (by simp)).then (Yields.pure _).yieldsIf)
  · obtain rfl := List.length_eq_zero_iff.1 arity
    rw [encodeParts, if_neg one, if_neg two]
    exact (Yields.pure _).yieldsIf

/-- A part is its code and its flags, and its own parts. -/
theorem yieldsIf_headed {sure : Prop} {levels : Nat} {t : TypeId} {generics : List FieldType}
    (small : t.code < 2 ^ 30)
    (parts : YieldsIf sure (decodeParts (decodePart levels) t) (encodeParts t generics) generics)
    (nullable tracked : Bool) :
    YieldsIf sure (decodePart (levels + 1)) (mk t nullable tracked generics).encodePart
      (mk t nullable tracked generics) := by
  have flags : flagBits nullable tracked < 4 ∧
      decide (flagBits nullable tracked / 2 % 2 = 1) = nullable ∧
      decide (flagBits nullable tracked % 2 = 1) = tracked := by
    cases nullable <;> cases tracked <;> decide
  obtain ⟨low, isNullable, isTracked⟩ := flags
  unfold decodePart encodePart
  generalize flagBits nullable tracked = bits at low isNullable isTracked ⊢
  have header : t.code * 4 % 2 ^ 32 + bits = 4 * t.code + bits := by omega
  have code : (4 * t.code + bits) / 4 = t.code := by omega
  have second : (4 * t.code + bits) / 2 % 2 = bits / 2 % 2 := by omega
  have first : (4 * t.code + bits) % 2 = bits % 2 := by omega
  rw [header]
  refine (Decode.yields_varuint32 (n := 4 * t.code + bits) (by omega)).yieldsIf.bind ?_
  dsimp only
  rw [code, second, first, isNullable, isTracked]
  exact parts.then (Yields.pure _).yieldsIf

/-- A part that can be told with any number of levels is read back or, with too few, refused. -/
theorem yieldsIf_part {levels most : Nat} {f : FieldType} (fits : f.Fits most) :
    YieldsIf (f.Fits levels) (decodePart levels) f.encodePart f := by
  induction levels generalizing most f with
  | zero => exact .throw id _
  | succ levels ih =>
    obtain _ | most := most
    · exact fits.elim
    obtain ⟨t, nullable, tracked, generics⟩ := f
    obtain ⟨small, arity, parts⟩ := fits
    have parts := yieldsIf_parts ((mk t nullable tracked generics).Fits (levels + 1)) arity
      fun g member => (ih (parts g member)).mono fun fits => fits.2.2 g member
    exact yieldsIf_headed small parts nullable tracked

/-- At the top the flags are known. -/
theorem yieldsIf_decode {most : Nat} {f : FieldType} (tellable : f.Tellable most) :
    YieldsIf (f.Tellable maxDepth) (decode f.nullable f.tracked) f.encode f := by
  obtain ⟨t, nullable, tracked, generics⟩ := f
  have parts := yieldsIf_parts ((mk t nullable tracked generics).Tellable maxDepth)
    tellable.arity fun g member =>
      (yieldsIf_part (tellable.parts g member)).mono fun fits => fits.parts g member
  exact (Decode.yields_varuint32 tellable.code).yieldsIf.bind (parts.then (Yields.pure _).yieldsIf)

end FieldType

/-! ## Entries -/

namespace FieldEntry

/-- Whether an entry can be told: it has a tag of 15 bits, which stands for the name, or a name that
is not empty. -/
structure Tellable (levels : Nat) (e : FieldEntry) : Prop where
  type : e.type.Tellable levels
  tag : ∀ tag, e.tag = some tag → 0 ≤ tag ∧ tag < 2 ^ 15 ∧ e.name = ""
  name : e.tag = none → Utf8.encode e.name ≠ []

theorem encode_ne_nil {e : FieldEntry} {bytes : List UInt8} (written : e.encode = .ok bytes) :
    bytes ≠ [] := by
  unfold encode at written
  dsimp only at written
  split at written <;> split at written <;> cases written <;> exact List.cons_ne_nil _ _

theorem Tellable.exists_encode {levels : Nat} {e : FieldEntry} (tellable : e.Tellable levels) :
    ∃ bytes, e.encode = .ok bytes := by
  unfold encode
  dsimp only
  split
  · rename_i tag tagged
    exact ⟨_, if_neg (by have := tellable.tag tag tagged; omega)⟩
  · rename_i untagged
    exact ⟨_, if_neg (tellable.name untagged)⟩

/-- The header byte of an entry, with the kind of its name, the size and the two flags. -/
theorem entrySize_eq {kind : Nat} (size : Nat) (small : kind < 4) (nullable tracked : Bool) :
    ∃ b : UInt8, Encode.entrySize (FieldType.flagBits nullable tracked + kind * 64) size =
        b :: (if 15 ≤ size then Encode.varuint32 (size - 15) else []) ∧
      b.toNat / 4 % 16 = min 15 size ∧ decide (b.toNat / 2 % 2 = 1) = nullable ∧
      decide (b.toNat % 2 = 1) = tracked ∧ b.toNat / 64 = kind := by
  have bits : FieldType.flagBits nullable tracked < 4 ∧
      decide (FieldType.flagBits nullable tracked / 2 % 2 = 1) = nullable ∧
      decide (FieldType.flagBits nullable tracked % 2 = 1) = tracked := by
    cases nullable <;> cases tracked <;> decide
  obtain ⟨low, isNullable, isTracked⟩ := bits
  generalize FieldType.flagBits nullable tracked = bits at low isNullable isTracked
  have value : (bits + kind * 64 + 4 * min 15 size).toUInt8.toNat =
      bits + kind * 64 + 4 * min 15 size := by simp; omega
  refine ⟨_, rfl, ?_⟩
  rw [value, ← isNullable, ← isTracked]
  refine ⟨by omega, ?_, ?_, by omega⟩ <;> exact decide_eq_decide.2 (by omega)

/-- An entry is read back, unless its type is nested too deep. -/
theorem yieldsIf_decode {most : Nat} {e : FieldEntry} (tellable : e.Tellable most)
    {bytes : List UInt8} (written : e.encode = .ok bytes) (short : bytes.length < 2 ^ 32) :
    YieldsIf (e.type.Tellable FieldType.maxDepth) decode bytes e := by
  have type := FieldType.yieldsIf_decode tellable.type
  obtain ⟨name, tag, fieldType⟩ := e
  dsimp only at type
  unfold encode at written
  cases tag with
  | some tag =>
    obtain ⟨nonneg, small, rfl⟩ := tellable.tag tag rfl
    dsimp only at written
    rw [if_neg (by omega)] at written
    cases written
    obtain ⟨b, front, size, isNullable, isTracked, kind⟩ :=
      entrySize_eq tag.toNat (by decide : 3 < 4) fieldType.nullable fieldType.tracked
    rw [show tagBits = 3 * 64 from rfl, front, List.cons_append, ← List.singleton_append]
    refine (Decode.yields_octet b).yieldsIf.bind ?_
    refine .continued (by omega) size (by omega) (.then (a := fieldType) ?_ ?_)
    · rw [isNullable, isTracked]
      exact type
    · rw [kind]
      rw [if_pos (by omega), Int.toNat_of_nonneg nonneg]
      exact (Yields.pure _).yieldsIf
  | none =>
    have named : Utf8.encode name ≠ [] := tellable.name rfl
    dsimp only at written
    rw [if_neg named] at written
    cases written
    have positive : (Utf8.encode name).length ≠ 0 := by simpa using named
    have octets := Decode.yields_bytes (Utf8.encode name)
    simp only [List.length_append] at short
    obtain ⟨b, front, size, isNullable, isTracked, kind⟩ :=
      entrySize_eq ((Utf8.encode name).length - 1) (by decide : 0 < 4)
        fieldType.nullable fieldType.tracked
    rw [Nat.zero_mul, Nat.add_zero] at front
    rw [front, List.append_assoc, List.cons_append, ← List.singleton_append]
    refine (Decode.yields_octet b).yieldsIf.bind ?_
    refine .continued (by omega) size (by omega) (.bind (a := fieldType) ?_ ?_)
    · rw [isNullable, isTracked]
      exact type
    · rw [kind]
      rw [show (Utf8.encode name).length - 1 + 1 = (Utf8.encode name).length by omega]
      exact Yields.yieldsIf (octets.then ((Decode.yields_utf8 _ name).then (.pure _)))

end FieldEntry

/-! ## Layers -/

/-- There are not more things than bytes that they are written to. -/
theorem length_le_of_mapM {α : Type} {encode : α → Except Error (List UInt8)} {items : List α}
    {encoded : List (List UInt8)} (h : items.mapM encode = .ok encoded)
    (some : ∀ a bytes, encode a = .ok bytes → bytes ≠ []) :
    items.length ≤ encoded.flatten.length := by
  induction mapM_eq_ok_iff.1 h with
  | nil => exact Nat.zero_le _
  | cons first written ih =>
    have positive := List.length_pos_iff.2 (some _ _ first)
    have rest := ih (mapM_eq_ok_iff.2 written)
    simp only [List.length_cons, List.flatten_cons, List.length_append]
    omega

/-- An identity is read back, if the bytes of its names can be counted. -/
theorem TypeIdentity.yields_decode {identity : TypeIdentity}
    (small : ∀ n, identity = .id n → n < 2 ^ 32) (short : identity.encode.length < 2 ^ 32) :
    Yields (decode identity.isByName) identity.encode identity := by
  cases identity with
  | id n => exact (Decode.yields_varuint32 (small n rfl)).then (.pure _)
  | names package typeName =>
    simp only [encode, Encode.definitionName, List.length_append] at short
    exact (Decode.yields_definitionName (by omega)).bind
      ((Decode.yields_definitionName (by omega)).then (.pure _))

namespace TypeDefinition

/-- Whether a definition can be told: 32 bits are enough for its identifier and for the size of what
follows the header, and all its entries can be told. -/
structure Tellable (levels : Nat) (d : TypeDefinition) : Prop where
  ident : ∀ n, d.identity = .id n → n < 2 ^ 32
  fields : ∀ e ∈ d.fields, e.Tellable levels
  short : ∀ layer, d.encodeLayer = .ok layer → layer.length < 2 ^ 32

theorem Tellable.exists_encodeLayer {levels : Nat} {d : TypeDefinition} (tellable : d.Tellable levels) :
    ∃ layer, d.encodeLayer = .ok layer := by
  obtain ⟨encoded, each⟩ := exists_forall₂ fun e member => (tellable.fields e member).exists_encode
  exact ⟨_, bind_eq_ok_iff.2 ⟨encoded, mapM_eq_ok_iff.2 each, rfl⟩⟩

/-- What follows a header is read back, unless a type is nested too deep. -/
theorem yieldsIf_decodeLayer {most : Nat} {d : TypeDefinition} (tellable : d.Tellable most)
    {layer : List UInt8} (written : d.encodeLayer = .ok layer) (header : Int) :
    YieldsIf (d.Tellable FieldType.maxDepth) (decodeLayer header) layer
      ⟨header / 2 ^ 14, d.identity, d.fields⟩ := by
  have short := tellable.short layer written
  obtain ⟨encoded, mapped, same⟩ := bind_eq_ok_iff.1 written
  cases pure_eq_ok_iff.1 same
  have count := length_le_of_mapM mapped fun _ _ => FieldEntry.encode_ne_nil
  simp only [List.length_cons, List.length_append] at short
  have identity := TypeIdentity.yields_decode tellable.ident (by omega)
  have many := Decode.yieldsIf_many (d.Tellable FieldType.maxDepth) FieldEntry.decode mapped
    fun e member bytes written le =>
      (FieldEntry.yieldsIf_decode (tellable.fields e member) written (by omega)).mono
        fun fits => (fits.fields e member).type
  generalize d.fields.length = n at count short many ⊢
  have byte : (countByte n d.identity.isByName).toUInt8.toNat = countByte n d.identity.isByName := by
    refine UInt8.toNat_ofNat_of_lt' (show _ < 256 from ?_)
    unfold countByte
    split <;> omega
  have named : decide (countByte n d.identity.isByName / 32 % 2 = 1) = d.identity.isByName := by
    unfold countByte
    cases d.identity.isByName <;> simp <;> omega
  have low : countByte n d.identity.isByName % 32 = min 31 n := by
    unfold countByte
    split <;> omega
  rw [List.append_assoc, List.cons_append, ← List.singleton_append]
  refine (Decode.yields_octet _).yieldsIf.bind ?_
  rw [byte, named, low]
  exact .continued (by omega) rfl (by omega)
    (identity.yieldsIf.bind (many.then (Yields.pure _).yieldsIf))

theorem yields_decodeSize {header : Int} {size : Nat} (low : header % 4096 = min sizeMask size)
    (bound : size < 2 ^ 32) :
    Yields (decodeSize header)
      (if sizeMask ≤ size then Encode.varuint32 (size - sizeMask) else []) size := by
  have limit : sizeMask = 4095 := rfl
  have whole : decodeSize header = if (header % 4096).toNat = sizeMask
      then ((sizeMask + ·) <$> Decode.varuint32) >>= pure else pure (header % 4096).toNat >>= pure := by
    simp only [bind_pure]
    rfl
  rw [whole, ← List.append_nil (ite ..)]
  exact (YieldsIf.continued (by omega) (by omega) bound (Yields.pure size).yieldsIf).yields trivial

theorem headerOf_low (layer : List UInt8) (hasFields : Bool) :
    headerOf layer hasFields % 4096 = min sizeMask layer.length := by
  have limit : sizeMask = 4095 := rfl
  unfold headerOf
  generalize (Murmur.hash128 layer 47).1.toNat = hash
  split <;> omega

theorem headerOf_range (layer : List UInt8) (hasFields : Bool) :
    0 ≤ headerOf layer hasFields ∧ headerOf layer hasFields < 2 ^ 63 := by
  have limit : sizeMask = 4095 := rfl
  unfold headerOf
  generalize (Murmur.hash128 layer 47).1.toNat = hash
  split <;> omega

/-- What the definition under a header says. -/
def under (d : TypeDefinition) (header : Int) : TypeDefinition := { d with hash := header / 2 ^ 14 }

/-- How the bytes of a definition are read: a header, and what a reader takes, or moves over, under
that header. -/
structure Reads (d : TypeDefinition) (header : Int) (after : List UInt8) : Prop where
  range : 0 ≤ header ∧ header < 2 ^ 63
  readHeader : Yields (Decode.signed 8) (Encode.signed 8 header) header
  read : YieldsIf (d.Tellable FieldType.maxDepth) (decodeAfter header) after (d.under header)
  skip : Yields (skipAfter header) after ()

/-- A definition is written, and is read back unless a type is nested too deep. -/
theorem Tellable.reads {most : Nat} {d : TypeDefinition} (tellable : d.Tellable most) :
    ∃ header after, d.encode = .ok (Encode.signed 8 header ++ after) ∧ d.Reads header after := by
  obtain ⟨layer, written⟩ := tellable.exists_encodeLayer
  have bound := tellable.short layer written
  have parsed := yieldsIf_decodeLayer tellable written
  have encoded : d.encode = .ok (Encode.signed 8 (headerOf layer (d.fields ≠ [])) ++
      ((if sizeMask ≤ layer.length then Encode.varuint32 (layer.length - sizeMask) else []) ++
        layer)) := by
    rw [← List.append_assoc]
    exact bind_eq_ok_iff.2 ⟨layer, written, rfl⟩
  have range := headerOf_range layer (d.fields ≠ [])
  have low := headerOf_low layer (d.fields ≠ [])
  generalize headerOf layer (d.fields ≠ []) = header at encoded range low
  have size := yields_decodeSize low bound
  have octets := Decode.yields_bytes layer
  exact ⟨header, _, encoded, range, Decode.yields_signed (by omega) (by omega),
    size.yieldsIf.bind (octets.yieldsIf.then (Decode.yieldsIf_within (parsed header))),
    size.bind (octets.then (.pure ()))⟩

end TypeDefinition

/-! ## Positions -/

namespace Decode

variable {α β : Type}

/-- Whether a decoder that succeeds has counted the bytes that it moved over. -/
def Counts (d : Decode α) : Prop := ∀ r a r', d r = .ok a r' → r'.total = r.total

namespace Counts

theorem pure (a : α) : Counts (pure a) := fun _ _ _ run => by cases run; rfl

theorem throw (e : Error) : Counts (throw e : Decode α) := fun _ _ _ run => by cases run

theorem bind {d : Decode α} {f : α → Decode β} (hd : Counts d) (hf : ∀ a, Counts (f a)) :
    Counts (d >>= f) := by
  intro r b r' run
  rw [bind_apply] at run
  cases first : d r with
  | ok a s =>
    rw [first] at run
    exact (hf a s b r' run).trans (hd r a s first)
  | error e s =>
    rw [first] at run
    cases run

theorem map {d : Decode α} (h : Counts d) (f : α → β) : Counts (f <$> d) := by
  rw [map_eq_pure_bind]
  exact h.bind fun _ => .pure _

end Counts

theorem counts_bytes (n : Nat) : Counts (bytes n) := by
  intro r octets r' run
  unfold bytes at run
  rw [bind_of_get] at run
  cases found : splitExactly n r.rest with
  | none =>
    rw [found] at run
    cases run
  | some parts =>
    obtain ⟨front, back⟩ := parts
    rw [found] at run
    cases run
    obtain ⟨size, split⟩ := splitExactly_eq_some_iff.1 found
    simp only [Reader.total, split, List.length_append]
    omega

theorem counts_octet : Counts octet := by
  rw [funext octet_eq, map_eq_pure_bind]
  exact (counts_bytes 1).bind fun _ => .pure _

theorem counts_groups {last : Decode Nat} (h : Counts last) (left : Nat) :
    Counts (groups last left) := by
  induction left with
  | zero => exact h
  | succ left ih =>
    refine counts_octet.bind fun b => ?_
    split
    · exact .pure _
    · exact ih.bind fun _ => .pure _

theorem counts_varuint32 : Counts varuint32 :=
  (counts_groups (.throw _) 5).bind fun _ => .pure _

theorem counts_varuint64 : Counts varuint64 := counts_groups counts_octet 8

theorem counts_varint64 : Counts varint64 := counts_varuint64.bind fun _ => .pure _

theorem counts_littleEndian (width : Nat) : Counts (littleEndian width) :=
  (counts_bytes width).bind fun _ => .pure _

theorem counts_signed (width : Nat) : Counts (signed width) :=
  (counts_littleEndian width).bind fun _ => .pure _

theorem counts_decodeSize (header : Int) : Counts (TypeDefinition.decodeSize header) := by
  unfold TypeDefinition.decodeSize
  dsimp only
  split
  · rw [map_eq_pure_bind]
    exact counts_varuint32.bind fun _ => .pure _
  · exact .pure _

theorem counts_within (bytes : List UInt8) (inner : Decode α) : Counts (within bytes inner) := by
  unfold within
  split
  · exact .pure _
  · exact .throw _

theorem counts_decodeAfter (header : Int) : Counts (TypeDefinition.decodeAfter header) :=
  (counts_decodeSize header).bind fun size => (counts_bytes size).bind fun _ => counts_within _ _

theorem counts_skipAfter (header : Int) : Counts (TypeDefinition.skipAfter header) :=
  (counts_decodeSize header).bind fun size => (counts_bytes size).bind fun _ => .pure _

/-- A decoder that counts stops right behind the bytes. -/
theorem Yields.stops {d : Decode α} {bytes : List UInt8} {a : α} (h : Yields d bytes a)
    (counts : Counts d) (p : Nat) (rest : List UInt8) :
    d ⟨p, bytes ++ rest⟩ = .ok a ⟨p + bytes.length, rest⟩ := by
  obtain ⟨p', run⟩ := h p rest
  have total := counts _ _ _ run
  simp only [Reader.total, List.length_append] at total
  rw [run, show p' = p + bytes.length by omega]

end Decode

/-! ## Round trips -/

theorem Utf8.encode_ne_nil {s : String} (nonempty : s ≠ "") : Utf8.encode s ≠ [] := by
  intro nothing
  have back := Utf8.decode_encode s
  rw [nothing, show ([] : List UInt8) = Utf8.encode "" from rfl, Utf8.decode_encode] at back
  exact nonempty (Except.ok.inj back).symm

/-- Whether the definition of a struct can tell of a field. -/
structure Field.Tellable (f : Field) : Prop where
  tag : ∀ tag, f.tag = some tag → 0 ≤ tag ∧ tag < 2 ^ 15
  name : f.tag = none → f.name ≠ ""
  type : f.fieldType.Tellable FieldType.maxDepth

instance (f : Field) : Decidable f.Tellable :=
  decidable_of_iff ((∀ tag ∈ f.tag, 0 ≤ tag ∧ tag < 2 ^ 15) ∧ (f.tag = none → f.name ≠ "") ∧
      f.fieldType.Tellable FieldType.maxDepth)
    ⟨fun h => ⟨h.1, h.2.1, h.2.2⟩, fun h => ⟨h.tag, h.name, h.type⟩⟩

theorem Field.Tellable.entry {f : Field} (tellable : f.Tellable) :
    (FieldEntry.ofField f).Tellable FieldType.maxDepth := by
  refine ⟨⟨tellable.type.code, tellable.type.arity, tellable.type.parts⟩, fun tag tagged => ?_,
    fun untagged => ?_⟩
  · have tagged : f.tag = some tag := tagged
    exact ⟨(tellable.tag tag tagged).1, (tellable.tag tag tagged).2, by
      simp [FieldEntry.ofField, tagged]⟩
  · have untagged : f.tag = none := untagged
    have name : (FieldEntry.ofField f).name = f.name := by simp [FieldEntry.ofField, untagged]
    rw [name]
    exact Utf8.encode_ne_nil (tellable.name untagged)

namespace StructType

/-- A definition of any fields is written, and its bytes are read back as that definition, with the
reader right behind them, whatever follows. A reader that moves over what follows the header stops in
the same place. -/
theorem definition_round_trip {id : Option Nat} {package typeName : String} {fields : List Field}
    (ident : ∀ n, id = some n → n < 2 ^ 32) (tellable : ∀ f ∈ fields, f.Tellable)
    (short : ∀ layer, (definitionOf id package typeName fields).encodeLayer = .ok layer →
      layer.length < 2 ^ 32) :
    ∃ bytes, (definitionOf id package typeName fields).encode = .ok bytes ∧
      ∀ p rest, ∃ header r, Decode.signed 8 ⟨p, bytes ++ rest⟩ = .ok header r ∧
        TypeDefinition.decode ⟨p, bytes ++ rest⟩ =
          .ok ⟨header / 2 ^ 14, id.elim (.names package typeName) .id,
            fields.map FieldEntry.ofField⟩ ⟨p + bytes.length, rest⟩ ∧
        TypeDefinition.skipAfter header r = .ok () ⟨p + bytes.length, rest⟩ := by
  have told : (definitionOf id package typeName fields).Tellable FieldType.maxDepth := by
    refine ⟨fun n same => ident n ?_, fun e member => ?_, short⟩
    · cases id with
      | some m => cases same; rfl
      | none => cases same
    · obtain ⟨f, declared, rfl⟩ := List.mem_map.1 member
      exact (tellable f declared).entry
  obtain ⟨header, after, encoded, reads⟩ := told.reads
  refine ⟨_, encoded, fun p rest => ?_⟩
  have front := reads.readHeader.stops (Decode.counts_signed 8) p (after ++ rest)
  have read := (reads.read.yields told).stops (Decode.counts_decodeAfter header)
    (p + (Encode.signed 8 header).length) rest
  have skip := reads.skip.stops (Decode.counts_skipAfter header)
    (p + (Encode.signed 8 header).length) rest
  rw [List.append_assoc, List.length_append, ← Nat.add_assoc]
  refine ⟨header, _, front, ?_, skip⟩
  unfold TypeDefinition.decode
  rw [Decode.bind_apply, front]
  exact read

/-- A field with a name and parts of parts, and one with a tag. -/
def tellableFields : List Field :=
  [{ FieldDecl.ofShape "scores" (.list (.map (.scalar .string) (.scalar .varint32))) with
      nullable := true, refEligible := true },
    { FieldDecl.ofShape "number" (.scalar .int64) with tag := some 300 }].map
      (Field.resolve (fun _ => none) true "demo.Game" 0)

theorem definition_round_trip_game :
    ∃ bytes, (definitionOf none "demo" "Game" tellableFields).encode = .ok bytes ∧
      ∀ p rest, ∃ header r, Decode.signed 8 ⟨p, bytes ++ rest⟩ = .ok header r ∧
        TypeDefinition.decode ⟨p, bytes ++ rest⟩ =
          .ok ⟨header / 2 ^ 14, .names "demo" "Game",
            [⟨"scores", none, .mk .list true true [.mk .map false false
              [.mk .string false false [], .mk .varint32 false false []]]⟩,
              ⟨"", some 300, .mk .int64 false false []⟩]⟩ ⟨p + bytes.length, rest⟩ ∧
        TypeDefinition.skipAfter header r = .ok () ⟨p + bytes.length, rest⟩ := by
  refine definition_round_trip (fun n same => by cases same) (by decide +kernel) fun layer written => ?_
  have size : (definitionOf none "demo" "Game" tellableFields).encodeLayer.toOption.map List.length =
      some 26 := by decide +kernel
  rw [written] at size
  have size : layer.length = 26 := Option.some.inj size
  omega

end StructType

end Graphwire
