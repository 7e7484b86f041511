import Graphwire.Reference.Marker
import Graphwire.Schema.Constant
import Graphwire.Text.Utf8

/-!
# Errors

Every cause for which an operation is refused, the kind that the cause belongs to, and its wording.
-/

namespace Graphwire

set_option autoImplicit false

/-- What kind of fault an error reports. -/
inductive ErrorKind where
  | bufferOutOfBound
  | invalidData
  | invalidRef
  | unknownEnum
  | typeError
  | depthExceed
  | unsupported
  | notAllowed
  | structVersionMismatch
  | typeUnregistered
  | sizeLimitExceeded
  | overflow
  deriving DecidableEq, Repr

/-- The name of a kind. -/
def ErrorKind.name : ErrorKind → String
  | bufferOutOfBound => "BufferOutOfBound"
  | invalidData => "InvalidData"
  | invalidRef => "InvalidRef"
  | unknownEnum => "UnknownEnum"
  | typeError => "TypeError"
  | depthExceed => "DepthExceed"
  | unsupported => "Unsupported"
  | notAllowed => "NotAllowed"
  | structVersionMismatch => "StructVersionMismatch"
  | typeUnregistered => "TypeUnregistered"
  | sizeLimitExceeded => "SizeLimitExceeded"
  | overflow => "Overflow"

/-- A size that can be limited. -/
inductive LimitKind where
  | collection
  | map
  | string
  | binary
  deriving DecidableEq, Repr

/-- The wording of a limited size. -/
def LimitKind.text : LimitKind → String
  | collection => "collection length"
  | map => "map entry count"
  | string => "string byte length"
  | binary => "binary size"

/-- The text that turned out to be ill-formed. -/
inductive TextRole where
  | string
  | fieldName
  | typeName
  deriving DecidableEq, Repr

/-- The wording of a text's role. -/
def TextRole.text : TextRole → String
  | string => "utf8 string"
  | fieldName => "field name"
  | typeName => "type name"

/-- Why an operation is refused. -/
inductive Error where
  | outOfBounds (position length total : Nat)
  | varuintTooLong
  | illFormedText (role : TextRole) (fault : Utf8.Fault)
  | oddUtf16Length
  | loneSurrogate
  | unsupportedStringEncoding (encoding : Nat)
  | sizeLimit (kind : LimitKind) (size limit : Nat)
  | referencePending (id : Nat)
  | referenceUnknown (id count : Nat)
  | invalidRefFlag (code : Int)
  | untrackedRefFlag (flag : RefFlag)
  | defaultMismatch (constant : Constant) (shape : Shape)
  | defaultOverflow (value : Int) (type : TypeId)
  | fieldTypeTooDeep
  | negativeFieldTag (tag : Int)
  | fieldTagOutOfRange (tag : Nat)
  | emptyFieldName
  | unsupportedFieldNameEncoding (encoding : Nat)
  | unsupportedTypeNameEncoding (encoding : Nat)
  | zeroVersion (typeName : String)
  | versionMismatch (typeName : String) (read expected : Int)
  | definitionNeverSent (index : Nat)
  | definitionOutOfOrder (index expected : Nat)
  | missingDefinition (typeName : String)
  | alreadyRegistered (typeName : String)
  | idTaken (id : Nat) (typeName owner : String)
  | noMembers (typeName : String)
  | negativeTag (field owner : String) (tag : Int)
  | undeclarableType (field owner : String) (type : TypeId)
  | duplicateTag (tag : Int) (owner : String)
  | defaultOrdinal (ordinal : Nat) (field owner enum : String)
  | defaultRequired (field owner : String)
  | inheritanceCycle (typeName : String)
  | parentMissing (parent typeName : String)
  | recordUnregistered (typeName : String)
  | typeUnregistered (typeName : String)
  | enumUnregistered (typeName : String)
  | fieldSetsDiffer (typeName : String)
  | configuration (cause : Error)
  | depthExceeded (limit : Nat)
  | nullWithoutMarker
  | nullTypeInfo
  | strictInfoForCompatible (typeName : String)
  | unsupportedTypeInfo (type : TypeId)
  | enumInfoForStruct (typeName : String)
  | structInfoForEnum (typeName : String)
  | undeclaredType
  | kindMismatch (expected actual : String)
  | recordMismatch (expected actual : String)
  | readOnlyDefinition (typeName : String)
  | notAMember (ordinal : Nat) (typeName : String)
  | integerOverflow (value : Int) (type : TypeId)
  | dateOverflow (day : Calendar.Day)
  | timestampOverflow (instant : Calendar.Instant)
  | unwritableScalar (type : TypeId)
  | unreadableBuiltin (type : TypeId)
  | variableWidthScalar (type : TypeId)
  | dateOutOfRange (days : Int)
  | timestampOutOfRange (micros : Int)
  | nanosOutOfRange (nanos : Int)
  | durationOutOfRange (seconds : Int)
  | invalidElementHeader (header : Nat)
  | undeclaredElements
  | fieldMissing (field typeName : String)
  | wrongMagic
  | notPortable
  | bigEndian
  | trailingBytes (count : Nat)
  deriving DecidableEq, Repr

namespace Error

/-- The kind that a cause belongs to. -/
def kind : Error → ErrorKind
  | outOfBounds .. => .bufferOutOfBound
  | referencePending _ | referenceUnknown .. => .invalidRef
  | notAMember .. => .unknownEnum
  | defaultMismatch .. | missingDefinition _ | defaultRequired .. | inheritanceCycle _
  | parentMissing .. | nullWithoutMarker | nullTypeInfo | strictInfoForCompatible _
  | enumInfoForStruct _ | structInfoForEnum _ | kindMismatch .. | recordMismatch ..
  | readOnlyDefinition _ | fieldMissing .. => .typeError
  | fieldTypeTooDeep | depthExceeded _ => .depthExceed
  | unsupportedStringEncoding _ | unsupportedFieldNameEncoding _ | unsupportedTypeNameEncoding _
  | unwritableScalar _ | unreadableBuiltin _ | variableWidthScalar _ => .unsupported
  | alreadyRegistered _ | idTaken .. | noMembers _ | negativeTag .. | undeclarableType ..
  | duplicateTag .. | defaultOrdinal .. | fieldSetsDiffer _ | configuration _ => .notAllowed
  | versionMismatch .. => .structVersionMismatch
  | recordUnregistered _ | typeUnregistered _ | enumUnregistered _ => .typeUnregistered
  | sizeLimit .. => .sizeLimitExceeded
  | defaultOverflow .. | integerOverflow .. | dateOverflow _ | timestampOverflow _ => .overflow
  | varuintTooLong | illFormedText .. | oddUtf16Length | loneSurrogate | invalidRefFlag _
  | untrackedRefFlag _ | negativeFieldTag _ | fieldTagOutOfRange _ | emptyFieldName
  | zeroVersion _ | definitionNeverSent _ | definitionOutOfOrder .. | unsupportedTypeInfo _
  | undeclaredType | dateOutOfRange _ | timestampOutOfRange _ | nanosOutOfRange _
  | durationOutOfRange _ | invalidElementHeader _ | undeclaredElements | wrongMagic
  | notPortable | bigEndian | trailingBytes _ => .invalidData

/-- The wording of a cause. -/
def message : Error → String
  | outOfBounds position length total => s!"Buffer out of bound: {position} + {length} > {total}"
  | varuintTooLong => "varuint32 is longer than 5 bytes"
  | illFormedText role fault => s!"invalid {role.text}: {fault.message}"
  | oddUtf16Length => "utf16 string has odd byte length"
  | loneSurrogate => "invalid utf16 string: invalid utf-16: lone surrogate found"
  | unsupportedStringEncoding n => s!"unsupported string encoding {n}"
  | sizeLimit kind size limit => s!"{kind.text} {size} exceeds the configured limit of {limit}"
  | referencePending id => s!"invalid reference id {id}: value is not available yet"
  | referenceUnknown id count => s!"invalid reference id {id}: only {count} slots are populated"
  | invalidRefFlag code => s!"invalid reference flag: {code}"
  | untrackedRefFlag flag => s!"reference flag {flag.label} where references are not tracked"
  | defaultMismatch constant shape =>
    s!"default {constant.text} does not match declared type {shape.text}"
  | defaultOverflow value type => s!"default {value} does not fit {type.label}"
  | fieldTypeTooDeep => "field type nesting exceeds the supported depth"
  | negativeFieldTag tag => s!"negative field tag {tag}"
  | fieldTagOutOfRange tag => s!"field tag {tag} out of range"
  | emptyFieldName => "field name must not be empty"
  | unsupportedFieldNameEncoding n => s!"unsupported field name encoding {n} in type definition"
  | unsupportedTypeNameEncoding n => s!"unsupported type name encoding {n} in type definition"
  | zeroVersion typeName => s!"struct {typeName} has a zero version hash"
  | versionMismatch typeName read expected =>
    s!"type not compatible: read {typeName} version {read} but local version is {expected}, " ++
      "align struct field types and names or enable compatible mode"
  | definitionNeverSent index => s!"type definition index {index} was never sent"
  | definitionOutOfOrder index expected =>
    s!"type definition index {index} is out of order, expected {expected}"
  | missingDefinition typeName =>
    s!"type {typeName} has no type definition outside compatible mode"
  | alreadyRegistered typeName => s!"type {typeName} is already registered"
  | idTaken id typeName owner => s!"type id {id} of {typeName} is already used by {owner}"
  | noMembers typeName => s!"enum {typeName} has no members"
  | negativeTag field owner tag => s!"field {field} of {owner} has negative tag {tag}"
  | undeclarableType field owner type =>
    s!"field {field} of {owner} uses unsupported type {type.label}"
  | duplicateTag tag owner => s!"tag {tag} is used by more than one field of {owner}"
  | defaultOrdinal ordinal field owner enum =>
    s!"default ordinal {ordinal} of field {field} in {owner} is not a member of {enum}"
  | defaultRequired field owner =>
    s!"field {field} of {owner} is neither nullable nor has a default, so it cannot be " ++
      "filled when a compatible payload omits it"
  | inheritanceCycle typeName => s!"inheritance chain of {typeName} contains a cycle"
  | parentMissing parent typeName => s!"parent {parent} of {typeName} must be registered first"
  | recordUnregistered typeName => s!"record type {typeName} is not registered"
  | typeUnregistered typeName => s!"type {typeName} is not registered"
  | enumUnregistered typeName => s!"enum type {typeName} is not registered"
  | fieldSetsDiffer typeName =>
    s!"records of unregistered type {typeName} must share one field set within a call"
  | configuration cause => cause.message
  | depthExceeded limit =>
    s!"maximum nesting depth ({limit}) exceeded. This may indicate a circular reference " ++
      "with reference tracking disabled or an overly deep object graph"
  | nullWithoutMarker => "null value where no null marker is written"
  | nullTypeInfo => "null value has no type info"
  | strictInfoForCompatible typeName =>
    s!"{typeName} is registered for compatible mode but was written in strict mode"
  | unsupportedTypeInfo type => s!"unsupported type id {type.code} in type info"
  | enumInfoForStruct typeName => s!"enum type info refers to struct {typeName}"
  | structInfoForEnum typeName => s!"struct type info refers to enum {typeName}"
  | undeclaredType => "a dynamic value must be preceded by its type info"
  | kindMismatch expected actual => s!"expected {expected} but got {actual}"
  | recordMismatch expected actual => s!"expected a record of {expected} but got {actual}"
  | readOnlyDefinition typeName => s!"type definition of {typeName} is read only"
  | notAMember ordinal typeName => s!"ordinal {ordinal} is not a member of {typeName}"
  | integerOverflow value type => s!"value {value} does not fit {type.typeName}"
  | dateOverflow day => s!"date {day.text} does not fit int32 days"
  | timestampOverflow t => "timestamp " ++ t.text " " ++ " does not fit int64 microseconds"
  | unwritableScalar type => s!"type id {type.code} cannot be written as a scalar"
  | unreadableBuiltin type => s!"type id {type.code} cannot be read as a built-in value"
  | variableWidthScalar type => s!"type id {type.code} is not a fixed-width scalar"
  | dateOutOfRange days => s!"date {days} days from epoch is out of range"
  | timestampOutOfRange micros => s!"timestamp {micros}us is out of range"
  | nanosOutOfRange nanos => s!"duration nanoseconds {nanos} out of range"
  | durationOutOfRange seconds => s!"duration of {seconds}s is out of range"
  | invalidElementHeader header =>
    "invalid collection header 0x" ++ Text.zeroPadded 2 (Text.hex header)
  | undeclaredElements => "collection declares its element type but none is known locally"
  | fieldMissing field typeName => s!"field {field} of {typeName} is not nullable but has no value"
  | wrongMagic =>
    "the fory xlang serialization must start with magic number 62D4. " ++
      "Please check whether the data is based on the xlang protocol and is not corrupted"
  | notPortable => "header bitmap mismatch at xlang bit"
  | bigEndian => "big endian payloads are not supported"
  | trailingBytes count => s!"{count} trailing bytes after the root value"

end Error

end Graphwire
