import CppContextEngine.Analyzer.WireFacts

/-!
# What the collectors emit for a function

The blocks of a function's graph, the accesses in them and the locations that
they touch are numbered.  A fact refers to a number, so what it refers to is
emitted as well.
-/

namespace CppContextEngine.Analyzer

open CppContextEngine.Foundation CppContextEngine.Ingestion

/-- The tables that `emitCFG` and `emitDataFlow` fill for one function. -/
structure FunctionFacts where
  function : String
  blocks : Nat
  elements : Fin blocks → Nat
  /-- `accessesByBlock` -/
  accesses : Fin blocks → Nat
  locations : Nat
  /-- What follows `:memory:` in the key of a location. -/
  locationName : Fin locations → String
  locationBase : Fin locations → Option (Fin locations)
  accessElement (block : Fin blocks) : Fin (accesses block) → Option (Fin (elements block))
  accessLocation (block : Fin blocks) : Fin (accesses block) → Fin locations
  entry : Fin blocks
  normalExit : Fin blocks
  /-- Successor numbers and suffixes with their blocks. -/
  edges : List (Fin blocks × Fin blocks × Nat × String × Details)
  accessEvidence : List (AccessRelation × (Σ block, Fin (accesses block)) ×
    (Σ block, Fin (accesses block)) × Details)
  aliasEvidence : List (AliasRelation × Fin locations × Fin locations × Details)
  effects : List (EffectKind × (Σ block, Fin (accesses block)) × Fin locations × Details)
  returnOrigins : List (String × Option (Fin locations) × Details)
  argumentBindings : List (String × Nat × Option (Fin locations) × Details)
  resultBindings : List (String × Fin locations × (Σ block, Fin (accesses block)) × Details)
  parameters : List (Fin locations)
  graphDetails : Details
  blockDetails : Fin blocks → Details
  elementDetails (block : Fin blocks) : Fin (elements block) → Details
  analysisDetails : Details
  locationDetails : Fin locations → Details
  accessDetails (block : Fin blocks) : Fin (accesses block) → Details
  summaryDetails : Details

namespace FunctionFacts

variable (f : FunctionFacts)

def place (access : Σ block, Fin (f.accesses block)) : Nat × Nat := (access.1, access.2)

/-- The facts that others refer to. -/
def definitions : List EmittedFact :=
  [.graph f.function f.entry f.normalExit f.graphDetails,
    .analysis f.function f.analysisDetails] ++
  (List.finRange f.blocks).map (fun block => .block f.function block (f.blockDetails block)) ++
  (List.finRange f.blocks).flatMap (fun block => (List.finRange (f.elements block)).map fun index =>
    .element f.function block index (f.elementDetails block index)) ++
  (List.finRange f.locations).map (fun location => .location f.function (f.locationName location)
    ((f.locationBase location).map f.locationName) (f.locationDetails location)) ++
  (List.finRange f.blocks).flatMap fun block =>
    (List.finRange (f.accesses block)).map fun sequence =>
      .access f.function block sequence ((f.accessElement block sequence).map Fin.val)
        (f.locationName (f.accessLocation block sequence)) (f.accessDetails block sequence)

/-- The facts of a function; the order in which they are added does not matter. -/
def facts : List EmittedFact :=
  f.definitions ++
  f.edges.map (fun (source, target, successor, suffix, details) =>
    .edge f.function source target successor suffix details) ++
  f.accessEvidence.map (fun (relation, source, target, details) =>
    .accessEvidence f.function relation (f.place source) (f.place target) details) ++
  f.aliasEvidence.map (fun (relation, source, target, details) =>
    .aliasEvidence f.function relation (f.locationName source) (f.locationName target) details) ++
  f.effects.map (fun (kind, access, location, details) =>
    .effect f.function kind (f.place access) (f.locationName location) details) ++
  f.returnOrigins.map (fun (key, location, details) =>
    .returnOrigin f.function key (location.map f.locationName) details) ++
  f.argumentBindings.map (fun (callsite, index, location, details) =>
    .argumentBinding f.function callsite index (location.map f.locationName) details) ++
  f.resultBindings.map (fun (callsite, location, access, details) =>
    .resultBinding f.function callsite (f.locationName location) (f.place access) details) ++
  [.summary f.function (f.parameters.map f.locationName) f.summaryDetails]

variable {f}

/-- `identity` is defined by a fact of the function. -/
def Defined (f : FunctionFacts) (identity : Identity) : Prop :=
  ∃ definition ∈ f.definitions, definition.defines = some identity

theorem mem_definitions {fact : EmittedFact} : fact ∈ f.definitions ↔
    fact = .graph f.function f.entry f.normalExit f.graphDetails ∨
    fact = .analysis f.function f.analysisDetails ∨
    (∃ block : Fin f.blocks, .block f.function block (f.blockDetails block) = fact) ∨
    (∃ (block : Fin f.blocks) (index : Fin (f.elements block)), .element f.function block index
      (f.elementDetails block index) = fact) ∨
    (∃ location, .location f.function (f.locationName location)
      ((f.locationBase location).map f.locationName) (f.locationDetails location) = fact) ∨
    ∃ (block : Fin f.blocks) (sequence : Fin (f.accesses block)), .access f.function block sequence
      ((f.accessElement block sequence).map Fin.val)
      (f.locationName (f.accessLocation block sequence)) (f.accessDetails block sequence) =
        fact := by
  simp only [definitions, List.mem_append, List.mem_flatMap, List.mem_map, List.mem_finRange,
    true_and, List.mem_cons, List.not_mem_nil, or_false, or_assoc]

theorem defined_graph : f.Defined (.graph f.function) :=
  ⟨_, mem_definitions.mpr (.inl rfl), rfl⟩

theorem defined_analysis : f.Defined (.analysis f.function) :=
  ⟨_, mem_definitions.mpr (.inr (.inl rfl)), rfl⟩

theorem defined_block (block : Fin f.blocks) : f.Defined (.block f.function block) :=
  ⟨_, mem_definitions.mpr (.inr (.inr (.inl ⟨block, rfl⟩))), rfl⟩

theorem defined_element (block : Fin f.blocks) (index : Fin (f.elements block)) :
    f.Defined (.element f.function block index) :=
  ⟨_, mem_definitions.mpr (.inr (.inr (.inr (.inl ⟨block, index, rfl⟩)))), rfl⟩

theorem defined_location (location : Fin f.locations) :
    f.Defined (.location f.function (f.locationName location)) :=
  ⟨_, mem_definitions.mpr (.inr (.inr (.inr (.inr (.inl ⟨location, rfl⟩))))), rfl⟩

theorem defined_access (access : Σ block, Fin (f.accesses block)) :
    f.Defined (.access f.function (f.place access).1 (f.place access).2) :=
  ⟨_, mem_definitions.mpr (.inr (.inr (.inr (.inr (.inr ⟨access.1, access.2, rfl⟩))))), rfl⟩

/-- An optional reference to a location is to a location of the function. -/
theorem defined_optional (name : String) (location : Option (Fin f.locations)) :
    ∀ reference ∈ EmittedFact.optionalReference name
      ((location.map f.locationName).map (.location f.function)), f.Defined reference.2 := by
  cases location with
  | none => simp [EmittedFact.optionalReference]
  | some location =>
      simpa [EmittedFact.optionalReference] using defined_location location

theorem forall_identities {fact : EmittedFact} {P : Identity → Prop}
    (hreferences : ∀ reference ∈ fact.references, P reference.2)
    (hparameters : ∀ identity ∈ fact.parameterLocations, P identity) :
    ∀ identity ∈ fact.identities, P identity := by
  intro identity h
  rcases List.mem_append.mp h with h | h
  · obtain ⟨reference, hreference, rfl⟩ := List.mem_map.mp h
    exact hreferences reference hreference
  · exact hparameters identity h

/-- What a definition refers to is defined. -/
theorem closed_definitions : ∀ fact ∈ f.definitions, ∀ identity ∈ fact.identities,
    f.Defined identity := by
  intro fact hfact
  rcases mem_definitions.mp hfact with rfl | rfl | ⟨block, rfl⟩ | ⟨block, index, rfl⟩ |
    ⟨location, rfl⟩ | ⟨block, sequence, rfl⟩ <;>
    refine forall_identities ?_ (by simp [EmittedFact.parameterLocations]) <;>
    simp only [EmittedFact.references, List.forall_mem_cons, List.forall_mem_append]
  · exact ⟨defined_block f.entry, defined_block f.normalExit, by simp⟩
  · exact ⟨defined_graph, by simp⟩
  · exact ⟨defined_graph, by simp⟩
  · exact ⟨defined_graph, defined_block block, by simp⟩
  · exact ⟨⟨defined_analysis, defined_graph, by simp⟩,
      defined_optional "base_key" (f.locationBase location)⟩
  · refine ⟨⟨defined_analysis, defined_graph, defined_block block,
      defined_location (f.accessLocation block sequence), by simp⟩, ?_⟩
    cases f.accessElement block sequence with
    | none => simp [EmittedFact.optionalReference]
    | some index => simpa [EmittedFact.optionalReference] using defined_element block index

theorem mem_facts_of_definitions {fact : EmittedFact} (h : fact ∈ f.definitions) :
    fact ∈ f.facts := by
  simp only [facts, List.append_assoc]
  exact List.mem_append_left _ h

/-- Whatever a fact of the function refers to is defined. -/
theorem closed : ∀ fact ∈ f.facts, ∀ identity ∈ fact.identities, f.Defined identity := by
  intro fact hfact
  simp only [facts, List.mem_append, List.mem_map, List.mem_singleton, or_assoc] at hfact
  rcases hfact with hdefinition | ⟨edge, -, rfl⟩ | ⟨evidence, -, rfl⟩ | ⟨evidence, -, rfl⟩ |
    ⟨effect, -, rfl⟩ | ⟨origin, -, rfl⟩ | ⟨binding, -, rfl⟩ | ⟨binding, -, rfl⟩ | rfl
  · exact closed_definitions fact hdefinition
  case inr.inr.inr.inr.inr.inr.inr.inr =>
    refine forall_identities ?_ ?_
    · simp only [EmittedFact.references, List.forall_mem_cons]
      exact ⟨defined_graph, defined_analysis, by simp⟩
    · simpa [EmittedFact.parameterLocations] using fun location _ => defined_location location
  all_goals
    refine forall_identities ?_ (by simp [EmittedFact.parameterLocations])
    simp only [EmittedFact.references, List.forall_mem_cons]
  · exact ⟨defined_graph, defined_block edge.1, defined_block edge.2.1, by simp⟩
  · exact ⟨defined_analysis, defined_graph, defined_access evidence.2.1,
      defined_access evidence.2.2.1, by simp⟩
  · exact ⟨defined_analysis, defined_graph, defined_location evidence.2.1,
      defined_location evidence.2.2.1, by simp⟩
  · exact ⟨defined_location effect.2.2.1, defined_access effect.2.1, by simp⟩
  · exact defined_optional "location_key" origin.2.1
  · exact defined_optional "location_key" binding.2.2.1
  · exact ⟨defined_location binding.2.1, defined_access binding.2.2.1, by simp⟩

end FunctionFacts

end CppContextEngine.Analyzer
