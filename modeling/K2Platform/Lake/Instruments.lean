import K2Platform.Lib.Dict

/-!
# The instrument registry, as the lake reads it

Model of `docker/lake/instruments.py`: from the parsed registry file, the native to canonical
symbol map of each venue.  `canonical` raises on a native symbol that the registry does not
list.
-/

set_option autoImplicit false

namespace K2.Lake

/-- One entry of the file; the fields the lake reads. -/
structure RegistryEntry where
  native : String
  canonical : String
  deriving DecidableEq, Repr

structure RegistryFile where
  version : Int
  instruments : Dict String (List RegistryEntry)

/-- `{exchange: {native: canonical}}`. -/
abbrev Registry := Dict String (Dict String String)

inductive RegistryError where
  | version (got : Int)
  | unknownInstrument (exchange native : String)
  deriving DecidableEq, Repr

namespace Registry

def load (doc : RegistryFile) : Except RegistryError Registry :=
  if doc.version ≠ 2 then .error (.version doc.version)
  else .ok (doc.instruments.map fun _ entries =>
    Dict.ofItems (entries.map fun e => (e.native, e.canonical)))

def canonical (registry : Registry) (exchange native : String) : Except RegistryError String :=
  match (registry.get? exchange).bind fun natives => natives.get? native with
  | some canon => .ok canon
  | none => .error (.unknownInstrument exchange native)

theorem canonical_eq_ok_iff {registry : Registry} {exchange native canon : String} :
    canonical registry exchange native = .ok canon ↔
      ∃ natives, registry.get? exchange = some natives ∧ natives.get? native = some canon := by
  unfold canonical
  constructor
  · intro h
    split at h
    · rename_i c hc
      cases h
      exact Option.bind_eq_some_iff.1 hc
    · cases h
  · intro h
    rw [Option.bind_eq_some_iff.2 h]

end Registry

end K2.Lake
