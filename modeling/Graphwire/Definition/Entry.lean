import Graphwire.Definition.FieldType
import Graphwire.Wire.Text

/-!
# Field entries

The entry of one field in a type definition: a header byte with the kind of the name, its size and
the two flags, the field type, and the name unless a tag stands for it.
-/

namespace Graphwire

set_option autoImplicit false

/-- A size in the four bits of a header byte, larger ones continued after it. -/
def Encode.entrySize (bits size : Nat) : List UInt8 :=
  (bits + 4 * min 15 size).toUInt8 :: if 15 ≤ size then Encode.varuint32 (size - 15) else []

/-- A field as a type definition describes it. The name is empty when a tag stands for it. -/
structure FieldEntry where
  name : String
  tag : Option Int
  type : FieldType
  deriving Repr

namespace FieldEntry

/-- The entry of a resolved field. -/
def ofField (f : Field) : FieldEntry :=
  { name := if f.tag.isSome then "" else f.name
    tag := f.tag
    type := f.fieldType.withTracked f.tracked }

/-- The tag with a number sign, or the name. -/
def label (e : FieldEntry) : String := e.tag.elim e.name fun tag => "#" ++ toString tag

/-- The tag's text, or the name. -/
def key (e : FieldEntry) : String := e.tag.elim e.name toString

/-- The kind of a name given by a tag, in the highest bits of the header. -/
def tagBits : Nat := 3 * 64

/-- The bytes of an entry. -/
def encode (e : FieldEntry) : Except Error (List UInt8) :=
  let flags := FieldType.flagBits e.type.nullable e.type.tracked
  match e.tag with
  | some tag =>
    if tag < 0 then .error (.negativeFieldTag tag)
    else .ok (Encode.entrySize (flags + tagBits) tag.toNat ++ e.type.encode)
  | none =>
    let octets := Utf8.encode e.name
    if octets = [] then .error .emptyFieldName
    else .ok (Encode.entrySize flags (octets.length - 1) ++ e.type.encode ++ octets)

/-- Reads an entry. -/
def decode : Decode FieldEntry := do
  let header ← Decode.octet
  let small := header / 4 % 16
  let size ← if small = 15 then (15 + ·) <$> Decode.varuint32 else pure small
  let type ← FieldType.decode (header / 2 % 2 = 1) (header % 2 = 1)
  match header / 64 with
  | 0 => do
    let octets ← Decode.bytes (size + 1)
    let name ← Decode.utf8 .fieldName octets
    return ⟨name, none, type⟩
  | 3 =>
    if size < 2 ^ 15 then return ⟨"", some size, type⟩
    else throw (.fieldTagOutOfRange size)
  | kind => throw (.unsupportedFieldNameEncoding kind)

end FieldEntry

end Graphwire
