import CppContextEngine.Ingestion.Records

/-!
# Compact keys

A long key travels as a family letter and a digest.  References are restored
from the identities that the definitions of their family give.
-/

namespace CppContextEngine.Ingestion

open CppContextEngine.Foundation

/-- The families of compact keys. -/
inductive WireFamily where
  | graph
  | block
  | element
  | analysis
  | location
  | access
  | evidence
  | effect
  deriving DecidableEq, Repr

def WireFamily.letter : WireFamily → String
  | graph => "g"
  | block => "b"
  | element => "e"
  | analysis => "d"
  | location => "m"
  | access => "a"
  | evidence => "v"
  | effect => "s"

/-- `_WIRE_FACT_KEYS` -/
def wireFactKeys : List (String × WireFamily) :=
  [("cfg_graph_v1", .graph), ("cfg_block_v1", .block), ("cfg_element_v1", .element),
    ("data_flow_analysis_v1", .analysis), ("memory_location_v1", .location),
    ("data_access_v1", .access), ("data_flow_evidence_v1", .evidence),
    ("summary_effect_v1", .effect)]

/-- `_WIRE_REFERENCE_FIELDS` -/
def wireReferenceFields : List (String × WireFamily) :=
  [("graph_key", .graph), ("entry_block_key", .block), ("normal_exit_block_key", .block),
    ("exceptional_exit_block_key", .block), ("block_key", .block), ("source_block_key", .block),
    ("target_block_key", .block), ("cfg_element_key", .element), ("analysis_key", .analysis),
    ("base_key", .location), ("location_key", .location), ("source_location_key", .location),
    ("target_location_key", .location), ("source_access_key", .access),
    ("target_access_key", .access), ("definition_access_key", .access)]

/-- `key.startswith(family + ":")` -/
def isCompact (family : WireFamily) (key : String) : Bool :=
  (family.letter ++ ":").toList.isPrefixOf key.toList

/-- `wire_identities` -/
abbrev WireIdentities := WireFamily → Table String

section Restore

variable (identities : WireIdentities)

/-- `_wire_reference` -/
def wireReference (value : Json) (family : WireFamily) : Except IngestError Json :=
  match value with
  | .text key =>
      if isCompact family key then
        match (identities family)[key]? with
        | some identity => .ok (.text identity)
        | none => protocolError "analyzer compact key references an unknown identity"
      else .ok (.text key)
  | value => .ok value

def restoreField (restored : Record) (field : String × WireFamily) : Except IngestError Record :=
  match restored[field.1]? with
  | none => .ok restored
  | some value => do
      let reference ← wireReference identities value field.2
      return restored.insert field.1 reference

/-- The fields of `_restore_wire_fact` that refer to other facts. -/
def restoreReferences (fact : Record) : Except IngestError Record := do
  let restored ← wireReferenceFields.foldlM (restoreField identities) fact
  match restored["parameter_location_keys"]? with
  | none => return restored
  | some _ => do
      let keys ← fact.stringList "parameter_location_keys"
      let references ← keys.mapM fun key => wireReference identities (.text key) .location
      return restored.insert "parameter_location_keys" (.list references)

variable [NativeLibrary]

/-- `_wire_key` -/
def wireKey (identity : String) (family : WireFamily) : String :=
  if (utf8 identity).length ≤ 66 then identity
  else family.letter ++ ":" ++ NativeLibrary.hexdigest (utf8 identity)

/-- A value in an f-string. -/
def formatValue : Json → String
  | .text value => value
  | value => NativeLibrary.str value

/-- `first or second` -/
def firstTruthy (first second : Json) : Json :=
  match first with
  | .null | .bool false | .int 0 | .text "" | .list [] | .object [] => second
  | first => first

/-- The identity of a fact whose own key is compact. -/
def restoredIdentity (restored : Record) (family : WireFamily) (key : String) :
    Except IngestError String :=
  match family with
  | .evidence => do
      let source := firstTruthy (restored.get "source_access_key") (restored.get "source_location_key")
      let target := firstTruthy (restored.get "target_access_key") (restored.get "target_location_key")
      let analysis ← restored.string "analysis_key"
      let relation ← restored.string "relation"
      return analysis ++ ":evidence:" ++ relation ++ ":" ++ formatValue source ++ ":" ++
        formatValue target
  | .effect => do
      let summary ← restored.string "summary_key"
      let kind ← restored.string "kind"
      let access ← restored.string "source_access_key"
      return summary ++ ":effect:" ++ kind ++ ":" ++ access
  | family => do
      match ← wireReference identities (.text key) family with
      | .text identity => return identity
      | _ => protocolError "analyzer compact key references an unknown identity"

/-- The key of `_restore_wire_fact`'s result. -/
def restoreKey (fact restored : Record) : Except IngestError Record :=
  match fact.get "fact", fact.get "key" with
  | .text kind, .text key =>
      match wireFactKeys.lookup kind with
      | some family =>
          if isCompact family key then do
            let identity ← restoredIdentity identities restored family key
            throwIf ((family = .evidence ∨ family = .effect) ∧ wireKey identity family ≠ key)
              (IngestError.protocol "analyzer compact fact identity is inconsistent")
            return restored.insert "key" (.text identity)
          else .ok restored
      | none => .ok restored
  | _, _ => .ok restored

/-- `_restore_wire_fact` -/
def restoreWireFact (fact : Record) : Except IngestError Record := do
  let restored ← restoreReferences identities fact
  let restored ← restoreKey identities fact restored
  return restored.erase "identity_key"

end Restore

end CppContextEngine.Ingestion
