import Graphwire.Error
import Graphwire.Schema.Order

/-!
# Fingerprints and version hashes

The fingerprint of a struct lists key, type, reference flag and null flag of its fields in the
order of the keys. Its hash goes before the fields of a record, so that a peer with other fields
refuses to read them.
-/

namespace Graphwire

set_option autoImplicit false

/-- The type code that enters the fingerprint. A type that peers may know as a different kind, or
not at all, enters as the unknown one. -/
def TypeId.forFingerprint (t : TypeId) : TypeId :=
  if t.isPolymorphic || t.isEnum || t.isUnion then .unknown else t

/-- The fingerprint's entry for a field. -/
def Field.fingerprint (f : Field) : String :=
  f.key ++ "," ++ toString f.type.forFingerprint.code ++ "," ++
    (if f.refEligible then "1" else "0") ++ "," ++ (if f.nullable then "1" else "0") ++ ";"

/-- The fingerprint of a struct's fields. -/
def fingerprint (fields : List Field) : String :=
  String.join ((fields.mergeSort Field.precedes).map Field.fingerprint)

/-- The seed of the hash, which is also the hash of the empty text. -/
def versionSeed : Nat := 47

/-- The lowest 32 bits of a text's hash, as a signed number. -/
def fingerprintHash (text : String) : Int :=
  if text = "" then versionSeed
  else (Murmur.hash128 (Utf8.encode text) versionSeed.toUInt64).1.toUInt32.toInt32.toInt

/-- The version hash of a struct; zero is no hash. -/
def structVersion (typeName : String) (fields : List Field) : Except Error Int :=
  let hash := fingerprintHash (fingerprint fields)
  if hash = 0 then .error (.zeroVersion typeName) else .ok hash

/-- Refuses a payload of another version. -/
def checkVersion (read expected : Int) (typeName : String) : Except Error Unit :=
  if read = expected then .ok () else .error (.versionMismatch typeName read expected)

end Graphwire
