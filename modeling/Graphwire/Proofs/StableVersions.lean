import Graphwire.Proofs.Fingerprints
import Graphwire.Proofs.Subregistries

/-!
# Stable versions

The fingerprint and the version of a struct follow from its inheritance chain. What else a registry
knows decides which types a field has and whether its values carry them, and the settings decide
which kinds structs are of and which references are tracked; none of this is told by a fingerprint.
-/

namespace Graphwire

set_option autoImplicit false

/-- The fingerprint of the struct at the end of an inheritance chain, with no types known. -/
def chainFingerprint (chain : List StructDecl) : String :=
  fingerprint (resolveFields (fun _ => none) false chain)

/-- A fingerprint is the same whatever is known of types and whether references are tracked. -/
theorem fingerprint_resolveFields {lookup : NamedLookup} (registered : lookup.Registered)
    (trackRef : Bool) (chain : List StructDecl) :
    fingerprint (resolveFields lookup trackRef chain) = chainFingerprint chain :=
  (fingerprint_of_vaguer (vaguer_resolveFields (fun _ _ unknown => by cases unknown) registered
    false trackRef chain)).symm

namespace Registry

variable {r : Registry} {config : Config} {name : String}

/-- The inheritance chain of a registered struct. -/
def chain? (r : Registry) (name : String) : Option (List StructDecl) :=
  (r.structs.lookup name).bind fun entry => (r.chain name entry.decl).toOption

/-- What is built has the fingerprint of its chain, and is of the version that this hashes to. -/
theorem fingerprint_of_build {entry : StructEntry} {s : StructType}
    (built : r.build config name entry = .ok s) :
    ∃ chain, r.chain name entry.decl = .ok chain ∧ fingerprint s.fields = chainFingerprint chain ∧
      s.version = fingerprintHash (chainFingerprint chain) := by
  obtain ⟨chain, found, fields, version⟩ := fields_of_build built
  have apart := (builds_fingerprinted config r name entry s built).apart
  have order := canonicalOrder_perm (resolveFields (r.lookup config.compatible) config.trackRef chain)
  rw [← fields] at order
  have text := fingerprint_resolveFields (r.registered_lookup config.compatible) config.trackRef chain
  refine ⟨chain, found, ?_, ?_⟩
  · rw [fingerprint_of_perm apart order, text]
  · rw [version, text]

end Registry

namespace Instance

/-- A registered struct has the fingerprint of its chain. -/
theorem Reachable.fingerprint_eq {i : Instance} (reachable : i.Reachable) {name : String}
    {s : StructType} (found : i.registry.struct? name = some s) {chain : List StructDecl}
    (declared : i.registry.chain? name = some chain) :
    fingerprint s.fields = chainFingerprint chain ∧
      s.version = fingerprintHash (chainFingerprint chain) := by
  obtain ⟨config, d, -, entry, built⟩ := reachable.assembled.build found
  obtain ⟨chain', ancestors, same⟩ := Registry.fingerprint_of_build built
  rw [Registry.declared?_eq, Option.map_eq_some_iff] at entry
  obtain ⟨entry, known, rfl⟩ := entry
  rw [Registry.chain?, known, Option.bind_some, ancestors] at declared
  cases declared
  exact same

/-- The version of a struct is stable: wherever one inheritance chain is registered, with whichever
other types and under whichever settings, the struct at its end has one fingerprint and one
version. -/
theorem Reachable.version_stable {i j : Instance} (reachable : i.Reachable) (reachable' : j.Reachable)
    {name name' : String} {chain : List StructDecl} (declared : i.registry.chain? name = some chain)
    (declared' : j.registry.chain? name' = some chain) {s t : StructType}
    (found : i.registry.struct? name = some s) (found' : j.registry.struct? name' = some t) :
    fingerprint s.fields = fingerprint t.fields ∧ s.version = t.version := by
  obtain ⟨text, version⟩ := reachable.fingerprint_eq found declared
  obtain ⟨text', version'⟩ := reachable'.fingerprint_eq found' declared'
  exact ⟨text.trans text'.symm, version.trans version'.symm⟩

/-- A struct with a part, and one that extends it. -/
def extended : List StructDecl :=
  [⟨.ofNames "demo" "Whole", none, true, [.ofShape "part" (.named "demo.Part")]⟩,
    ⟨.ofNames "demo" "Extended", some "demo.Whole", false, []⟩]

/-- An instance that knows the structs by name, and not what a part is. -/
def partless : Instance :=
  (extended.map (Action.registerStruct none)).foldl perform fresh

/-- An instance in compatible mode that tracks references, and knows that a part is one of two. -/
def partitioned : Instance :=
  (([.setCompatible true, .setTrackRef true,
    .registerEnumAuto ⟨.ofNames "demo" "Part", ["LEFT", "RIGHT"]⟩] : List Action) ++
      extended.map Action.registerStructAuto).foldl perform fresh

/-- The part is of no known type with one instance, and of a registered one with the other. -/
theorem version_stable_extended :
    ∃ s t, partless.registry.chain? "demo.Extended" = some extended ∧
      partitioned.registry.chain? "demo.Extended" = some extended ∧
      partless.registry.struct? "demo.Extended" = some s ∧
      partitioned.registry.struct? "demo.Extended" = some t ∧
      s.fields.map (·.type) = [.unknown] ∧ t.fields.map (·.type) = [.enum] ∧
      fingerprint s.fields = fingerprint t.fields ∧ s.version = t.version := by
  let s := (partless.registry.struct? "demo.Extended").get (by decide +kernel)
  let t := (partitioned.registry.struct? "demo.Extended").get (by decide +kernel)
  have declared : partless.registry.chain? "demo.Extended" = some extended := by decide +kernel
  have declared' : partitioned.registry.chain? "demo.Extended" = some extended := by decide +kernel
  have found : partless.registry.struct? "demo.Extended" = some s := (Option.some_get _).symm
  have found' : partitioned.registry.struct? "demo.Extended" = some t := (Option.some_get _).symm
  have types : s.fields.map (·.type) = [.unknown] := by decide +kernel
  have types' : t.fields.map (·.type) = [.enum] := by decide +kernel
  exact ⟨s, t, declared, declared', found, found', types, types',
    Reachable.version_stable ⟨_, rfl⟩ ⟨_, rfl⟩ declared declared' found found'⟩

end Instance

end Graphwire
