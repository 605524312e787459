import CppContextEngine.Foundation.FirstPerKey
import CppContextEngine.Foundation.Separators
import CppContextEngine.Ingestion.WireKeys

/-!
# The facts of a function and their compact keys

`emitCFG` and `emitDataFlow` build the keys of blocks, elements, locations and
accesses from the function's key and refer to them in other facts.  `FactSink`
keeps the first fact of each sort key and shortens the long keys of what it
keeps.
-/

namespace CppContextEngine.Analyzer

open CppContextEngine.Foundation CppContextEngine.Ingestion

/-! ## Keys -/

def graphKey (function : String) : String := "cfg:" ++ function

def blockKey (function : String) (id : Nat) : String :=
  graphKey function ++ ":block:" ++ toString id

def analysisKey (function : String) : String := "data-flow:" ++ graphKey function

def summaryKey (function : String) : String := "function-summary:" ++ graphKey function

/-- What a compact key can stand for. -/
inductive Identity where
  | graph (function : String)
  | block (function : String) (block : Nat)
  | element (function : String) (block index : Nat)
  | analysis (function : String)
  | location (function name : String)
  | access (function : String) (block sequence : Nat)
  deriving DecidableEq, Repr

namespace Identity

def family : Identity → WireFamily
  | graph .. => .graph
  | block .. => .block
  | element .. => .element
  | analysis .. => .analysis
  | location .. => .location
  | access .. => .access

/-- The key that the collector builds. -/
def key : Identity → String
  | graph function => graphKey function
  | block function id => blockKey function id
  | element function id index => blockKey function id ++ ":element:" ++ toString index
  | analysis function => analysisKey function
  | location function name => analysisKey function ++ ":memory:" ++ name
  | access function id sequence => blockKey function id ++ ":access:" ++ toString sequence

end Identity

inductive AccessRelation where
  | reachingDefinition
  | overwrites
  deriving DecidableEq, Repr

def AccessRelation.name : AccessRelation → String
  | reachingDefinition => "reaching_definition"
  | overwrites => "overwrites"

inductive AliasRelation where
  | mustAlias
  | mayAlias
  deriving DecidableEq, Repr

def AliasRelation.name : AliasRelation → String
  | mustAlias => "must_alias"
  | mayAlias => "may_alias"

inductive EffectKind where
  | read
  | write
  | escape
  deriving DecidableEq, Repr

def EffectKind.name : EffectKind → String
  | read => "read"
  | write => "write"
  | escape => "escape"

/-- A key of `data_flow_evidence_v1` -/
def evidenceKey (function relation source target : String) : String :=
  analysisKey function ++ ":evidence:" ++ relation ++ ":" ++ source ++ ":" ++ target

/-- A key of `summary_effect_v1` -/
def effectKey (function kind access : String) : String :=
  summaryKey function ++ ":effect:" ++ kind ++ ":" ++ access

/-! ## Facts -/

/-- The names of the fields that hold compact keys or come from them. -/
def wireNames : List String :=
  wireReferenceFields.map Prod.fst ++ ["parameter_location_keys", "identity_key"]

/-- The fields of a fact that hold no compact key. -/
def Details := { details : Record // ∀ name ∈ wireNames, details[name]? = none }

/-- The kinds of facts without a family, and the words of their sort keys. -/
inductive PlainKind where
  | file
  | inclusion
  | symbol
  | macroExpansion
  | occurrence
  | edge
  | callsite
  | callTarget
  | callsiteResolution
  deriving DecidableEq, Repr

namespace PlainKind

def fact : PlainKind → String
  | file => "file"
  | inclusion => "include"
  | symbol => "symbol"
  | macroExpansion | occurrence => "occurrence"
  | edge => "edge"
  | callsite => "callsite_v1"
  | callTarget => "call_target_v1"
  | callsiteResolution => "callsite_resolution_v1"

def word : PlainKind → String
  | file => "file"
  | inclusion => "include"
  | symbol => "symbol"
  | macroExpansion => "macro-expansion"
  | occurrence => "occurrence"
  | edge => "edge"
  | callsite => "callsite"
  | callTarget => "call-target"
  | callsiteResolution => "callsite-resolution"

end PlainKind

/-- What the collectors hand to `FactSink::add`, one constructor for each place that does. -/
inductive EmittedFact where
  | graph (function : String) (entry normalExit : Nat) (details : Details)
  | block (function : String) (block : Nat) (details : Details)
  | element (function : String) (block index : Nat) (details : Details)
  | edge (function : String) (source target : Nat) (successor : Nat) (suffix : String)
      (details : Details)
  | analysis (function : String) (details : Details)
  | location (function name : String) (base : Option String) (details : Details)
  | access (function : String) (block sequence : Nat) (element : Option Nat) (location : String)
      (details : Details)
  | accessEvidence (function : String) (relation : AccessRelation) (source target : Nat × Nat)
      (details : Details)
  | aliasEvidence (function : String) (relation : AliasRelation) (source target : String)
      (details : Details)
  | effect (function : String) (kind : EffectKind) (access : Nat × Nat) (location : String)
      (details : Details)
  | returnOrigin (function key : String) (location : Option String) (details : Details)
  | argumentBinding (function callsite : String) (index : Nat) (location : Option String)
      (details : Details)
  | resultBinding (function callsite location : String) (access : Nat × Nat) (details : Details)
  | summary (function : String) (parameters : List String) (details : Details)
  | plain (kind : PlainKind) (sortKey : String) (details : Details)

namespace EmittedFact

/-- The fact's own entry in a family that others refer to. -/
def defines : EmittedFact → Option Identity
  | graph f _ _ _ => some (.graph f)
  | block f b _ => some (.block f b)
  | element f b i _ => some (.element f b i)
  | analysis f _ => some (.analysis f)
  | location f name _ _ => some (.location f name)
  | access f b s _ _ _ => some (.access f b s)
  | _ => none

def optionalReference (name : String) (identity : Option Identity) : List (String × Identity) :=
  identity.toList.map fun identity => (name, identity)

/-- The fields that refer to other facts. -/
def references : EmittedFact → List (String × Identity)
  | graph f entry normalExit _ =>
      [("entry_block_key", .block f entry), ("normal_exit_block_key", .block f normalExit)]
  | block f _ _ => [("graph_key", .graph f)]
  | element f b _ _ => [("graph_key", .graph f), ("block_key", .block f b)]
  | edge f source target _ _ _ =>
      [("graph_key", .graph f), ("source_block_key", .block f source),
        ("target_block_key", .block f target)]
  | analysis f _ => [("graph_key", .graph f)]
  | location f _ base _ =>
      [("analysis_key", .analysis f), ("graph_key", .graph f)] ++
        optionalReference "base_key" (base.map (.location f))
  | access f b _ index name _ =>
      [("analysis_key", .analysis f), ("graph_key", .graph f), ("block_key", .block f b),
        ("location_key", .location f name)] ++
        optionalReference "cfg_element_key" (index.map (.element f b))
  | accessEvidence f _ source target _ =>
      [("analysis_key", .analysis f), ("graph_key", .graph f),
        ("source_access_key", .access f source.1 source.2),
        ("target_access_key", .access f target.1 target.2)]
  | aliasEvidence f _ source target _ =>
      [("analysis_key", .analysis f), ("graph_key", .graph f),
        ("source_location_key", .location f source), ("target_location_key", .location f target)]
  | effect f _ source name _ =>
      [("location_key", .location f name), ("source_access_key", .access f source.1 source.2)]
  | returnOrigin f _ name _ => optionalReference "location_key" (name.map (.location f))
  | argumentBinding f _ _ name _ => optionalReference "location_key" (name.map (.location f))
  | resultBinding f _ name definition _ =>
      [("location_key", .location f name),
        ("definition_access_key", .access f definition.1 definition.2)]
  | summary f _ _ => [("graph_key", .graph f), ("analysis_key", .analysis f)]
  | plain .. => []

/-- The locations in `parameter_location_keys` -/
def parameterLocations : EmittedFact → List Identity
  | summary f parameters _ => parameters.map (.location f)
  | _ => []

/-- The fields that name a fact or spell its key out. -/
def fields : EmittedFact → List (String × Json)
  | graph f _ _ _ =>
      [("fact", .text "cfg_graph_v1"), ("key", .text (graphKey f)), ("function_key", .text f),
        ("exceptional_exit_block_key", .null)]
  | block f b _ =>
      [("fact", .text "cfg_block_v1"), ("key", .text (blockKey f b)), ("index", .int b)]
  | element f b i _ =>
      [("fact", .text "cfg_element_v1"), ("key", .text (Identity.element f b i).key),
        ("index", .int i)]
  | edge _ _ _ successor _ _ =>
      [("fact", .text "cfg_edge_v1"), ("successor_index", .int successor)]
  | analysis f _ => [("fact", .text "data_flow_analysis_v1"), ("key", .text (analysisKey f))]
  | location f name _ _ =>
      [("fact", .text "memory_location_v1"), ("key", .text (Identity.location f name).key)]
  | access f b s _ _ _ =>
      [("fact", .text "data_access_v1"), ("key", .text (Identity.access f b s).key),
        ("sequence", .int s)]
  | accessEvidence f relation source target _ =>
      [("fact", .text "data_flow_evidence_v1"),
        ("key", .text (evidenceKey f relation.name (Identity.access f source.1 source.2).key
          (Identity.access f target.1 target.2).key)),
        ("relation", .text relation.name)]
  | aliasEvidence f relation source target _ =>
      [("fact", .text "data_flow_evidence_v1"),
        ("key", .text (evidenceKey f relation.name (Identity.location f source).key
          (Identity.location f target).key)),
        ("relation", .text relation.name)]
  | effect f kind source _ _ =>
      [("fact", .text "summary_effect_v1"),
        ("key", .text (effectKey f kind.name (Identity.access f source.1 source.2).key)),
        ("summary_key", .text (summaryKey f)), ("kind", .text kind.name)]
  | returnOrigin f key _ _ =>
      [("fact", .text "summary_return_origin_v1"), ("key", .text (summaryKey f ++ key)),
        ("summary_key", .text (summaryKey f))]
  | argumentBinding f callsite index _ _ =>
      [("fact", .text "call_argument_binding_v1"),
        ("key", .text (summaryKey f ++ ":argument:" ++ callsite ++ ":" ++ toString index)),
        ("summary_key", .text (summaryKey f)), ("callsite_key", .text callsite),
        ("argument_index", .int index)]
  | resultBinding f callsite _ _ _ =>
      [("fact", .text "call_result_binding_v1"),
        ("key", .text (summaryKey f ++ ":result:" ++ callsite)),
        ("summary_key", .text (summaryKey f)), ("callsite_key", .text callsite)]
  | summary f parameters _ =>
      [("fact", .text "function_summary_v1"), ("key", .text (summaryKey f)),
        ("function_key", .text f),
        ("parameter_location_keys",
          .list (parameters.map fun name => .text (Identity.location f name).key))]
  | plain kind _ _ => [("fact", .text kind.fact)]

def details : EmittedFact → Details
  | graph _ _ _ details | block _ _ details | element _ _ _ details | edge _ _ _ _ _ details
  | analysis _ details | location _ _ _ details | access _ _ _ _ _ details
  | accessEvidence _ _ _ _ details | aliasEvidence _ _ _ _ details | effect _ _ _ _ details
  | returnOrigin _ _ _ details | argumentBinding _ _ _ _ details
  | resultBinding _ _ _ _ details | summary _ _ details | plain _ _ details => details

/-- The fields of a fact that its details do not hold. -/
def entries (fact : EmittedFact) : List (String × Json) :=
  fact.fields ++ fact.references.map fun reference => (reference.1, .text reference.2.key)

/-- The JSON object of a fact. -/
def record (fact : EmittedFact) : Record :=
  fact.entries.foldl (fun record entry => record.insert entry.1 entry.2) fact.details.1

/-- A sort key up to its first colon. -/
def word : EmittedFact → String
  | graph .. => "cfg-graph"
  | block .. => "cfg-block"
  | element .. => "cfg-element"
  | edge .. => "cfg-edge"
  | analysis .. => "data-flow-analysis"
  | location .. => "memory-location"
  | access .. => "data-access"
  | accessEvidence .. | aliasEvidence .. => "data-flow-evidence"
  | effect .. => "summary-effect"
  | returnOrigin .. => "summary-return"
  | argumentBinding .. => "call-argument-binding"
  | resultBinding .. => "call-result-binding"
  | summary .. => "function-summary"
  | plain kind _ _ => kind.word

/-- The sort key behind its first colon. -/
def sortRest : EmittedFact → String
  | graph f _ _ _ => f
  | block f b _ => f ++ ":" ++ toString b
  | element f b i _ => f ++ ":" ++ toString b ++ ":" ++ toString i
  | edge f source target successor suffix _ =>
      f ++ ":" ++ toString source ++ ":" ++ toString successor ++ ":" ++ suffix ++ ":" ++
        toString target
  | analysis f _ => analysisKey f
  | location f name _ _ => (Identity.location f name).key
  | access f b s _ _ _ => (Identity.access f b s).key
  | accessEvidence f relation source target _ =>
      evidenceKey f relation.name (Identity.access f source.1 source.2).key
        (Identity.access f target.1 target.2).key
  | aliasEvidence f relation source target _ =>
      evidenceKey f relation.name (Identity.location f source).key (Identity.location f target).key
  | effect f kind source _ _ =>
      effectKey f kind.name (Identity.access f source.1 source.2).key
  | returnOrigin f key _ _ => summaryKey f ++ key
  | argumentBinding _ callsite index _ _ => callsite ++ ":" ++ toString index
  | resultBinding _ callsite _ _ _ => callsite
  | summary f _ _ => summaryKey f
  | plain _ sortKey _ => sortKey

/-- The key under which `FactSink` looks for the same fact. -/
def sortKey (fact : EmittedFact) : String := fact.word ++ ":" ++ fact.sortRest

end EmittedFact

/-! ## The sink -/

section Projection

variable [NativeLibrary]

/-- `wireKey` -/
def wireKey (key : String) (family : WireFamily) : String :=
  if (utf8 key).length ≤ 66 then key
  else family.letter ++ ":" ++ NativeLibrary.hexdigest (utf8 key)

/-- The family that `projectWireKeys` chooses for a fact's own key. -/
def ownFamily : String → Option WireFamily
  | "cfg_graph_v1" => some .graph
  | "cfg_block_v1" => some .block
  | "cfg_element_v1" => some .element
  | "data_flow_analysis_v1" => some .analysis
  | "memory_location_v1" => some .location
  | "data_access_v1" => some .access
  | "data_flow_evidence_v1" => some .evidence
  | "summary_effect_v1" => some .effect
  | _ => none

/-- The table `references` of `projectWireKeys` -/
def references : List (String × WireFamily) :=
  [("graph_key", .graph), ("entry_block_key", .block), ("normal_exit_block_key", .block),
    ("exceptional_exit_block_key", .block), ("block_key", .block),
    ("source_block_key", .block), ("target_block_key", .block), ("cfg_element_key", .element),
    ("analysis_key", .analysis), ("base_key", .location), ("location_key", .location),
    ("source_location_key", .location), ("target_location_key", .location),
    ("source_access_key", .access), ("target_access_key", .access),
    ("definition_access_key", .access)]

def projectKey (fact : Record) : Record :=
  match fact["fact"]?, fact["key"]? with
  | some (.text kind), some (.text key) =>
      match ownFamily kind with
      | some family =>
          let projected := wireKey key family
          let fact :=
            if family = .location ∧ projected ≠ key then fact.insert "identity_key" (.text key)
            else fact
          fact.insert "key" (.text projected)
      | none => fact
  | _, _ => fact

def projectReference (fact : Record) (field : String × WireFamily) : Record :=
  match fact[field.1]? with
  | some (.text key) => fact.insert field.1 (.text (wireKey key field.2))
  | _ => fact

/-- One entry of `parameter_location_keys` -/
def projectLocation : Json → Json
  | .text key => .text (wireKey key .location)
  | value => value

def projectLocations (fact : Record) : Record :=
  match fact["parameter_location_keys"]? with
  | some (.list locations) =>
      fact.insert "parameter_location_keys" (.list (locations.map projectLocation))
  | _ => fact

def projectWireKeys (fact : Record) : Record :=
  projectLocations (references.foldl projectReference (projectKey fact))

end Projection

/-- `FactSink`: the sort keys it has seen, and what it kept, last first. -/
structure FactSink where
  sortKeys : List String := []
  kept : List EmittedFact := []

namespace FactSink

/-- `FactSink::add`; what it keeps is emitted by `line`. -/
def add (sink : FactSink) (fact : EmittedFact) : FactSink :=
  if fact.sortKey ∈ sink.sortKeys then sink
  else { sortKeys := fact.sortKey :: sink.sortKeys, kept := sink.kept ++ [fact] }

/-- The facts that are left of what is added one after another. -/
def addAll (facts : List EmittedFact) : List EmittedFact :=
  (facts.foldl add {}).kept

/-- A record in the stream. -/
def line [NativeLibrary] (fact : EmittedFact) : Record :=
  (projectWireKeys fact.record).insert "type" (.text "fact")

end FactSink

/-- The record that a line stands for. -/
def EmittedFact.logical (fact : EmittedFact) : Record :=
  fact.record.insert "type" (.text "fact")

/-! ## Fields of a record -/

namespace EmittedFact

/-- What a fact refers to. -/
def identities (fact : EmittedFact) : List Identity :=
  fact.references.map Prod.snd ++ fact.parameterLocations

def kind : EmittedFact → String
  | graph .. => "cfg_graph_v1"
  | block .. => "cfg_block_v1"
  | element .. => "cfg_element_v1"
  | edge .. => "cfg_edge_v1"
  | analysis .. => "data_flow_analysis_v1"
  | location .. => "memory_location_v1"
  | access .. => "data_access_v1"
  | accessEvidence .. | aliasEvidence .. => "data_flow_evidence_v1"
  | effect .. => "summary_effect_v1"
  | returnOrigin .. => "summary_return_origin_v1"
  | argumentBinding .. => "call_argument_binding_v1"
  | resultBinding .. => "call_result_binding_v1"
  | summary .. => "function_summary_v1"
  | plain kind _ _ => kind.fact

/-- The family and the key of a fact that `projectWireKeys` shortens. -/
def own (fact : EmittedFact) : Option (WireFamily × String) :=
  match fact with
  | accessEvidence f relation source target _ =>
      some (.evidence, evidenceKey f relation.name (Identity.access f source.1 source.2).key
        (Identity.access f target.1 target.2).key)
  | aliasEvidence f relation source target _ =>
      some (.evidence, evidenceKey f relation.name (Identity.location f source).key
        (Identity.location f target).key)
  | effect f kind source _ _ =>
      some (.effect, effectKey f kind.name (Identity.access f source.1 source.2).key)
  | fact => fact.defines.map fun identity => (identity.family, identity.key)

variable {fact : EmittedFact}

theorem parameterLocations_family (fact : EmittedFact) :
    ∀ identity ∈ fact.parameterLocations, identity.family = .location := by
  cases fact <;> simp [parameterLocations, Identity.family]

theorem kind_mem (fact : EmittedFact) : ("fact", Json.text fact.kind) ∈ fact.entries := by
  cases fact <;> simp [entries, fields, kind]

theorem ownFamily_kind (fact : EmittedFact) : ownFamily fact.kind = fact.own.map Prod.fst := by
  cases fact with
  | plain kind => cases kind <;> rfl
  | _ => rfl

theorem own_mem {family : WireFamily} {key : String} (h : fact.own = some (family, key)) :
    ("key", Json.text key) ∈ fact.entries := by
  cases fact <;> cases h <;> simp [entries, fields, Identity.key]

theorem entries_nodup (fact : EmittedFact) : ("type" :: fact.entries.map Prod.fst).Nodup := by
  cases fact with
  | location f name base => cases base <;> simp [entries, fields, references, optionalReference]
  | access f b s index => cases index <;> simp [entries, fields, references, optionalReference]
  | returnOrigin f key name => cases name <;> simp [entries, fields, references, optionalReference]
  | argumentBinding f callsite index name =>
      cases name <;> simp [entries, fields, references, optionalReference]
  | _ => simp [entries, fields, references]

theorem getElem?_record (fact : EmittedFact) (name : String) : fact.record[name]? =
    ((lastBy Prod.fst name fact.entries).map Prod.snd).or fact.details.1[name]? :=
  Table.getElem?_foldl_insert Prod.fst Prod.snd fact.entries name fact.details.1

theorem logical_of_mem {entry : String × Json} (h : entry ∈ fact.entries) :
    fact.logical[entry.1]? = some entry.2 := by
  obtain ⟨htype, hnodup⟩ := List.nodup_cons.mp fact.entries_nodup
  have hne : "type" ≠ entry.1 := fun hsame => htype (hsame ▸ List.mem_map_of_mem h)
  rw [logical, Table.getElem?_insert, if_neg hne, getElem?_record,
    lastBy_of_nodup Prod.fst hnodup h]
  rfl

/-- A field that holds compact keys is not a detail. -/
theorem mem_of_logical {name : String} (hname : name ∈ wireNames) {value : Json}
    (h : fact.logical[name]? = some value) : (name, value) ∈ fact.entries := by
  have hne : "type" ≠ name := by
    rintro rfl
    revert hname
    decide
  rw [logical, Table.getElem?_insert, if_neg hne, getElem?_record, fact.details.2 name hname,
    Option.or_none] at h
  obtain ⟨entry, hentry, rfl⟩ := Option.map_eq_some_iff.mp h
  have hkey := lastBy_key Prod.fst hentry
  exact hkey ▸ mem_of_lastBy Prod.fst hentry

/-- A reference stands in a field of its family. -/
theorem references_typed (fact : EmittedFact) :
    ∀ reference ∈ fact.references, (reference.1, reference.2.family) ∈ wireReferenceFields := by
  cases fact with
  | location f name base =>
      cases base <;> simp [references, optionalReference, Identity.family, wireReferenceFields]
  | access f b s index =>
      cases index <;> simp [references, optionalReference, Identity.family, wireReferenceFields]
  | returnOrigin f key name =>
      cases name <;> simp [references, optionalReference, Identity.family, wireReferenceFields]
  | argumentBinding f callsite index name =>
      cases name <;> simp [references, optionalReference, Identity.family, wireReferenceFields]
  | _ => simp [references, Identity.family, wireReferenceFields]

/-- What the other fields hold under the names of references. -/
theorem fields_wireNames (fact : EmittedFact) : ∀ entry ∈ fact.fields, entry.1 ∈ wireNames →
    entry = ("exceptional_exit_block_key", .null) ∨ entry = ("parameter_location_keys",
      .list (fact.parameterLocations.map fun identity => .text identity.key)) := by
  have hnames : wireNames = ["graph_key", "entry_block_key", "normal_exit_block_key",
    "exceptional_exit_block_key", "block_key", "source_block_key", "target_block_key",
    "cfg_element_key", "analysis_key", "base_key", "location_key", "source_location_key",
    "target_location_key", "source_access_key", "target_access_key", "definition_access_key",
    "parameter_location_keys", "identity_key"] := rfl
  cases fact <;> simp [fields, hnames, parameterLocations]

theorem own_of_logical {kind key : String} {family : WireFamily}
    (hkind : fact.logical["fact"]? = some (.text kind)) (hfamily : ownFamily kind = some family)
    (hkey : fact.logical["key"]? = some (.text key)) : fact.own = some (family, key) := by
  have hfact := logical_of_mem fact.kind_mem
  obtain rfl : fact.kind = kind := by simpa using hfact.symm.trans hkind
  rw [ownFamily_kind] at hfamily
  obtain ⟨⟨family', key'⟩, hown, rfl⟩ := Option.map_eq_some_iff.mp hfamily
  have hvalue := logical_of_mem (own_mem hown)
  obtain rfl : key' = key := by simpa using hvalue.symm.trans hkey
  exact hown

/-- A reference field of the record refers to what the fact refers to. -/
theorem reference_of_logical {field : String × WireFamily} (hfield : field ∈ wireReferenceFields)
    {value : Json} (h : fact.logical[field.1]? = some value) : value = .null ∨
      ∃ identity ∈ fact.identities, identity.family = field.2 ∧ value = .text identity.key := by
  have hname : field.1 ∈ wireNames := List.mem_append_left _ (List.mem_map_of_mem hfield)
  have hnames : (wireReferenceFields.map Prod.fst).Nodup := by decide
  have hlocations : "parameter_location_keys" ∉ wireReferenceFields.map Prod.fst := by decide
  rcases List.mem_append.mp (mem_of_logical hname h) with hmem | hmem
  · rcases fact.fields_wireNames _ hmem hname with hsame | hsame
    · exact .inl (Prod.mk.inj hsame).2
    · rw [← (Prod.mk.inj hsame).1] at hlocations
      exact absurd (List.mem_map_of_mem hfield) hlocations
  · obtain ⟨reference, hreference, hsame⟩ := List.mem_map.mp hmem
    obtain ⟨hsameName, hvalue⟩ := Prod.mk.inj hsame
    have hfamily := List.inj_on_of_nodup_map hnames (fact.references_typed _ hreference) hfield
      hsameName
    exact .inr ⟨reference.2, List.mem_append_left _ (List.mem_map_of_mem hreference),
      congrArg Prod.snd hfamily, hvalue.symm⟩

theorem notMem_references {name : String} (hname : name ∉ wireReferenceFields.map Prod.fst)
    {value : Json} : (name, value) ∉
      fact.references.map fun reference => (reference.1, Json.text reference.2.key) := by
  intro hmem
  obtain ⟨reference, hreference, hsame⟩ := List.mem_map.mp hmem
  rw [← (Prod.mk.inj hsame).1] at hname
  exact hname (List.mem_map.mpr ⟨_, fact.references_typed _ hreference, rfl⟩)

theorem parameterLocations_of_logical {value : Json}
    (h : fact.logical["parameter_location_keys"]? = some value) :
    value = .list (fact.parameterLocations.map fun identity => .text identity.key) := by
  have hname : "parameter_location_keys" ∈ wireNames := by decide
  rcases List.mem_append.mp (mem_of_logical hname h) with hmem | hmem
  · rcases fact.fields_wireNames _ hmem hname with hsame | hsame
    · exact absurd (Prod.mk.inj hsame).1 (by decide)
    · exact (Prod.mk.inj hsame).2
  · exact absurd hmem (notMem_references (by decide))

theorem identity_key_of_logical (fact : EmittedFact) : fact.logical["identity_key"]? = none := by
  cases h : fact.logical["identity_key"]? with
  | none => rfl
  | some value =>
      have hname : "identity_key" ∈ wireNames := by decide
      rcases List.mem_append.mp (mem_of_logical hname h) with hmem | hmem
      · rcases fact.fields_wireNames _ hmem hname with hsame | hsame <;>
          exact absurd (Prod.mk.inj hsame).1 (by decide)
      · exact absurd hmem (notMem_references (by decide))

end EmittedFact

/-! ## Sort keys -/

namespace EmittedFact

/-- The family of what a fact defines, by the word of its sort key. -/
def wordFamily : String → Option WireFamily
  | "cfg-graph" => some .graph
  | "cfg-block" => some .block
  | "cfg-element" => some .element
  | "data-flow-analysis" => some .analysis
  | "memory-location" => some .location
  | "data-access" => some .access
  | _ => none

theorem family_eq_wordFamily (fact : EmittedFact) :
    fact.defines.map Identity.family = wordFamily fact.word := by
  cases fact with
  | plain kind => cases kind <;> rfl
  | _ => rfl

theorem colon_notMem_word (fact : EmittedFact) : ':' ∉ fact.word.toList := by
  cases fact with
  | plain kind => cases kind <;> simp only [word, PlainKind.word] <;> decide
  | _ => simp only [word]; decide

theorem sortKey_eq_iff {fact other : EmittedFact} :
    fact.sortKey = other.sortKey ↔ fact.word = other.word ∧ fact.sortRest = other.sortRest := by
  constructor
  · exact append_colon_inj_of_first fact.colon_notMem_word other.colon_notMem_word
  · rintro ⟨hword, hrest⟩
    rw [sortKey, sortKey, hword, hrest]

theorem blockKey_inj {f f' : String} {b b' : Nat} :
    blockKey f b = blockKey f' b' ↔ f = f' ∧ b = b' := by
  rw [blockKey, blockKey, graphKey, graphKey]
  exact (append_word_nat_inj ":block").trans
    (and_congr_left fun _ => String.append_right_inj _)

/-- The key that a definition of a family defines, from its sort key. -/
theorem key_eq_iff {fact other : EmittedFact} {identity identity' : Identity}
    (hdefines : fact.defines = some identity) (hdefines' : other.defines = some identity')
    (hfamily : identity.family = identity'.family) :
    fact.sortRest = other.sortRest ↔ identity.key = identity'.key := by
  cases fact <;> cases hdefines <;> cases other <;> cases hdefines' <;>
    simp only [Identity.family, reduceCtorEq] at hfamily
  case graph.refl.graph.refl => simp [sortRest, Identity.key, graphKey]
  case block.refl.block.refl => rw [sortRest, sortRest, append_colon_nat_inj, Identity.key, Identity.key,
    blockKey_inj]
  case element.refl.element.refl =>
    rw [sortRest, sortRest, append_colon_nat_inj, append_colon_nat_inj, Identity.key,
      Identity.key]
    exact (and_congr_left fun _ => blockKey_inj.symm).trans
      (append_word_nat_inj ":element").symm
  all_goals exact Iff.rfl

/-- Facts of one sort key define the same key. -/
theorem defines_of_sortKey_eq {fact other : EmittedFact} (h : fact.sortKey = other.sortKey)
    {identity : Identity} (hdefines : fact.defines = some identity) :
    ∃ identity', other.defines = some identity' ∧ identity'.family = identity.family ∧
      identity'.key = identity.key := by
  obtain ⟨hword, hrest⟩ := sortKey_eq_iff.mp h
  have hfamily : other.defines.map Identity.family = some identity.family := by
    rw [family_eq_wordFamily, ← hword, ← family_eq_wordFamily, hdefines]
    rfl
  obtain ⟨identity', hidentity', hsame⟩ := Option.map_eq_some_iff.mp hfamily
  exact ⟨identity', hidentity', hsame,
    ((key_eq_iff hdefines hidentity' hsame.symm).mp hrest).symm⟩

end EmittedFact

/-! ## What the sink keeps -/

namespace FactSink

theorem foldl_add (facts : List EmittedFact) (sink : FactSink) :
    (facts.foldl add sink).kept =
      (facts.foldl (keepFirst EmittedFact.sortKey) (sink.sortKeys, sink.kept)).2 := by
  induction facts generalizing sink with
  | nil => rfl
  | cons fact facts ih =>
      rw [List.foldl_cons, List.foldl_cons, ih]
      unfold add keepFirst
      split <;> simp [*]

theorem addAll_eq_firstPerKey (facts : List EmittedFact) :
    addAll facts = firstPerKey EmittedFact.sortKey facts := by
  unfold addAll
  rw [foldl_add]
  exact foldl_keepFirst_nil facts

theorem nodup_addAll (facts : List EmittedFact) :
    ((addAll facts).map EmittedFact.sortKey).Nodup := by
  rw [addAll_eq_firstPerKey]
  exact nodup_firstPerKey

theorem mem_of_mem_addAll {facts : List EmittedFact} {fact : EmittedFact}
    (h : fact ∈ addAll facts) : fact ∈ facts := by
  rw [addAll_eq_firstPerKey] at h
  exact (firstPerKey_sublist _ facts).subset h

theorem exists_mem_addAll {facts : List EmittedFact} {fact : EmittedFact} (h : fact ∈ facts) :
    ∃ kept ∈ addAll facts, kept.sortKey = fact.sortKey := by
  rw [addAll_eq_firstPerKey]
  exact exists_mem_firstPerKey h

end FactSink

end CppContextEngine.Analyzer
