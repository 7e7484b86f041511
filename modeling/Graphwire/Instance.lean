import Graphwire.Codec.Payload

/-!
# Instances

An instance holds the settings, the registered types and the definitions that it received. A value
is serialized into a frame: two magic bytes, a byte of flags, and the value unless it is null.
-/

namespace Graphwire

set_option autoImplicit false

/-- The settings, the types and the memory of an instance. -/
structure Instance where
  config : Config
  registry : Registry
  /-- Why the types do not fit the settings, if they do not. -/
  fault : Option Error
  cache : DefinitionCache

namespace Instance

/-- An instance with the standard settings and no types. -/
def fresh : Instance := ⟨.standard, .empty, none, .empty⟩

def environment (i : Instance) : Environment := ⟨i.registry, i.config⟩

/-- Changes settings that the types depend on. If the types cannot be built for the new settings
they stay as they are, and the instance refuses to work until the settings change again. -/
def reconfigure (i : Instance) (config : Config) : Instance :=
  match i.registry.rebuild config with
  | .ok registry => ⟨config, registry, none, .empty⟩
  | .error e => ⟨config, i.registry, some e, .empty⟩

def setCompatible (i : Instance) (compatible : Bool) : Instance :=
  i.reconfigure { i.config with compatible }

def setTrackRef (i : Instance) (trackRef : Bool) : Instance :=
  i.reconfigure { i.config with trackRef }

def setMaxDepth (i : Instance) (maxDepth : Nat) : Instance :=
  { i with config := { i.config with maxDepth } }

def setLimits (i : Instance) (limits : SizeLimits) : Instance :=
  { i with config := { i.config with limits } }

def setRequireRegistration (i : Instance) (requireRegistration : Bool) : Instance :=
  { i with config := { i.config with requireRegistration } }

def setStrategy (i : Instance) (strategy : Strategy) : Instance :=
  { i with config := { i.config with strategy } }

/-- The instance after a registration. A type that joined makes received definitions stale. -/
def settle {α : Type} (i : Instance) (outcome : Registry.Outcome α) : Except Error α × Instance :=
  match outcome with
  | (.ok a, registry) => (.ok a, { i with registry, cache := .empty })
  | (.error e, registry) => (.error e, { i with registry })

/-- Registers a struct under an identifier or by name. -/
def registerStruct (i : Instance) (id : Option Nat) (decl : StructDecl) :
    Except Error Unit × Instance :=
  i.settle (i.registry.registerStruct i.config id decl)

/-- Registers an enumeration under an identifier or by name. -/
def registerEnum (i : Instance) (id : Option Nat) (decl : EnumDecl) :
    Except Error Unit × Instance :=
  i.settle (i.registry.registerEnum i.config id decl)

/-- Registers a struct under the identifier that its naming gives. -/
def registerStructAuto (i : Instance) (decl : StructDecl) : Except Error IdAssignment × Instance :=
  i.settle (i.registry.registerStructAuto i.config decl)

/-- Registers an enumeration under the identifier that its naming gives. -/
def registerEnumAuto (i : Instance) (decl : EnumDecl) : Except Error IdAssignment × Instance :=
  i.settle (i.registry.registerEnumAuto i.config decl)

/-- Refuses to work while the types do not fit the settings. -/
def checkFault (i : Instance) : Except Error Unit :=
  match i.fault with
  | some e => .error (.configuration e)
  | none => .ok ()

/-- The marker of the value at the root. -/
def rootMode (i : Instance) : RefMode := .ofFlags true i.config.trackRef

end Instance

/-- The two bytes at the start of a frame, as a little-endian number. -/
def magicNumber : Nat := 0x62d4

/-- The head of a frame: the magic bytes and the flags for null, little-endian order and
portability. -/
def Encode.head (isNull : Bool) : List UInt8 :=
  littleEndian 2 magicNumber ++ [(6 + if isNull then 1 else 0 : Nat).toUInt8]

/-- Reads the head of a frame and says whether the value is null. -/
def Decode.head : Decode Bool := do
  let magic ← littleEndian 2
  if magic ≠ magicNumber then throw .wrongMagic
  let flags ← octet
  if flags / 4 % 2 = 0 then throw .notPortable
  if flags / 2 % 2 = 0 then throw .bigEndian
  return flags % 2 = 1

/-- Reads a whole frame. -/
def Read.frame (env : Environment) (mode : RefMode) : Read Value := do
  let isNull ← decode Decode.head
  let v ← if isNull then pure .null else value env mode true .dynamic
  let remaining := (← get).reader.remaining
  if remaining ≠ 0 then throw (.trailingBytes remaining)
  return v

namespace Instance

/-- The frame of a value. -/
def serialize (i : Instance) (g : Graph) (v : Value) : Except Error (List UInt8) := do
  i.checkFault
  if v.isNull then return Encode.head true
  else
    let (bytes, _) ← StateT.run (Write.value i.environment g i.rootMode true .dynamic v) .initial
    return Encode.head false ++ bytes

/-- The value of a frame with the graph of its nodes, and the instance, which keeps the definitions
that the frame brought. -/
def deserialize (i : Instance) (bytes : List UInt8) : Except Error (Value × Graph) × Instance :=
  match i.checkFault with
  | .error e => (.error e, i)
  | .ok () =>
    match (Read.frame i.environment i.rootMode).run (.ofBytes bytes i.cache) with
    | .ok v s => (.ok (v, s.graph), { i with cache := s.cache })
    | .error e s => (.error e, { i with cache := s.cache })

end Instance

end Graphwire
