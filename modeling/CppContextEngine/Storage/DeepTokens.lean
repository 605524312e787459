import CppContextEngine.Foundation.Worklist

/-!
# Deep materializations in the database

A deep publication writes the facts of some units, a cache row for each of them
and a token that maps to these rows.  Deleting a cache row deletes what maps to
it, and a token goes with the first of its rows.
-/

namespace CppContextEngine.Storage.Deep

open CppContextEngine.Foundation

/-! ## Rows -/

structure Provenance where
  analyzerIdentity : String
  analyzerVersion : String
  protocol : String
  protocolVersion : Nat
  factSchemaVersion : Nat
  profile : String
  deriving DecidableEq, Repr

structure Completeness where
  cfg : Bool
  dataFlow : Bool
  summaries : Bool
  bindings : Bool
  deriving DecidableEq, Repr

def Completeness.all (complete : Completeness) : Bool :=
  complete.cfg && complete.dataFlow && complete.summaries && complete.bindings

/-- The columns of `translation_units` that publications read. -/
structure UnitRow where
  id : String
  buildVariant : String
  buildConfigurationId : String
  commandHash : String
  contentHash : String
  dependencies : List (String × String)
  fullProfile : Bool
  factsComplete : Completeness
  analyzerIdentity : String
  deriving DecidableEq, Repr

/-- The deep facts of a function in a unit, under their `function_summaries` row. -/
structure SummaryRow (Facts : Type) where
  unit : String
  buildVariant : String
  function : String
  facts : Facts
  deriving DecidableEq, Repr

/-- A row of `call_targets`, joined with its callsite; rows stand in the order of the queries. -/
structure CallRow where
  callsiteId : String
  owner : String
  callerUnit : String
  target : String
  buildVariant : String
  /-- `derivation = 'indexed_override_candidate'` -/
  overrideCandidate : Bool
  evidence : List String
  deriving DecidableEq, Repr

/-- A row of `deep_tu_cache`.  The last two fields are history: the publication that wrote the
row, and the unit's deep facts as that publication left them. -/
structure CacheRow (Facts : Type) where
  unit : String
  buildVariant : String
  buildConfigurationId : String
  identityHash : String
  closureGenerationId : String
  provenance : Provenance
  complete : Completeness
  writtenAt : Nat
  covered : List (SummaryRow Facts)
  deriving DecidableEq, Repr

/-- A row of `deep_materialization_units` -/
structure MappedUnit where
  unit : String
  identityHash : String
  distance : Nat
  deriving DecidableEq, Repr

/-- What the caller names a publication by. -/
structure Publication where
  materializationId : String
  rootSymbolId : String
  closureGenerationId : String
  buildScope : List String
  closureComplete : Bool
  knownTus : Nat
  omittedTus : Nat
  limitReason : String
  deriving DecidableEq, Repr

/-- A row of `deep_materializations`, with the rows that map it to units. -/
structure Token where
  publication : Publication
  unitCount : Nat
  provenance : Provenance
  mapped : List MappedUnit
  writtenAt : Nat
  deriving DecidableEq, Repr

def Token.id (token : Token) : String := token.publication.materializationId

structure DeepStore (Facts : Type) where
  units : List UnitRow := []
  summaries : List (SummaryRow Facts) := []
  calls : List CallRow := []
  cache : List (CacheRow Facts) := []
  tokens : List Token := []
  symbols : List String := []
  /-- The committed operations so far. -/
  clock : Nat := 0
  deriving DecidableEq, Repr

/-! ## Calls -/

/-- The owners of the calls of a function. -/
def callersOf (calls : List CallRow) (variant function : String) : List String :=
  (calls.filter fun call => call.buildVariant = variant ∧ call.target = function).map CallRow.owner

/-- `_reverse_summary_callers` -/
def reverseSummaryCallers (calls : List CallRow) (variant : String) (functions : List String) :
    List String :=
  ((levels (callersOf calls variant) (calls.length + 1) functions.dedup functions.dedup).getD
    []).filter (· ∉ functions)

namespace DeepStore

variable {Facts : Type} (store : DeepStore Facts)

/-- The deep facts of a unit. -/
def unitFacts (unit : String) : List (SummaryRow Facts) := store.summaries.filter (·.unit = unit)

/-! ## Deletion -/

/-- `DELETE FROM deep_tu_cache`, with the units that cascade. -/
def dropCache (doomed : CacheRow Facts → Bool) : DeepStore Facts :=
  { store with
    cache := store.cache.filter (! doomed ·)
    tokens := store.tokens.map fun token => { token with
      mapped := token.mapped.filter fun mapped =>
        ! store.cache.any fun row => doomed row && decide (row.unit = mapped.unit) } }

/-- The join of a mapped unit with its cache row. -/
def backed (token : Token) (mapped : MappedUnit) : Bool :=
  store.cache.any fun row => row.unit = mapped.unit ∧ row.identityHash = mapped.identityHash ∧
    row.closureGenerationId = token.publication.closureGenerationId

/-- `_delete_invalid_deep_materializations` -/
def deleteInvalid : DeepStore Facts :=
  { store with
    tokens := store.tokens.filter fun token =>
      token.unitCount = token.mapped.countP (store.backed token) }

/-! ## Insertion -/

/-- The primary key of `deep_tu_cache` is the unit. -/
def insertCache (rows : List (CacheRow Facts)) : Option (DeepStore Facts) :=
  if (rows.map CacheRow.unit).Nodup ∧ ∀ row ∈ rows, row.unit ∉ store.cache.map CacheRow.unit then
    some { store with cache := rows ++ store.cache }
  else none

/-- `_insert_deep_materialization_alias`: a plain insertion, with the keys that it has to keep. -/
def insertToken (publication : Publication) (provenance : Provenance) (mapped : List MappedUnit) :
    Option (DeepStore Facts) :=
  if publication.materializationId ∉ store.tokens.map Token.id ∧
      publication.rootSymbolId ∈ store.symbols ∧ (mapped.map MappedUnit.unit).Nodup ∧
      ∀ unit ∈ mapped.map MappedUnit.unit, unit ∈ store.cache.map CacheRow.unit then
    some { store with
      tokens := { publication, unitCount := mapped.length, provenance, mapped,
                  writtenAt := store.clock } :: store.tokens }
  else none

def tick : DeepStore Facts := { store with clock := store.clock + 1 }

end DeepStore

/-! ## Overlays -/

/-- A unit of a deep batch, with the arguments of `apply_deep_overlay` about it. -/
structure OverlayUnit (Facts : Type) where
  id : String
  buildVariant : String
  buildConfigurationId : String
  commandHash : String
  contentHash : String
  dependencies : List (String × String)
  identityHash : String
  distance : Nat
  complete : Completeness
  /-- The functions with a summary in the unit. -/
  functions : List (String × Facts)
  deriving DecidableEq, Repr

structure Overlay (Facts : Type) where
  publication : Publication
  provenance : Provenance
  units : List (OverlayUnit Facts)
  deriving DecidableEq, Repr

namespace Overlay

variable {Facts : Type} (overlay : Overlay Facts) (store : DeepStore Facts)

def unitIds : List String := overlay.units.map OverlayUnit.id

def summaries : List (SummaryRow Facts) :=
  overlay.units.flatMap fun unit => unit.functions.map fun function =>
    ⟨unit.id, unit.buildVariant, function.1, function.2⟩

/-- `changed_by_variant` -/
def changedFunctions (variant : String) : List String :=
  (overlay.summaries.filter (·.buildVariant = variant)).map SummaryRow.function

/-- `stale_caller_units` -/
def staleCallerUnits : List String :=
  ((store.summaries.filter fun row => row.function ∈
      reverseSummaryCallers store.calls row.buildVariant
        (overlay.changedFunctions row.buildVariant)).map SummaryRow.unit).filter
    (· ∉ overlay.unitIds)

/-- The navigation index has not changed since the units were analysed.  A configuration
belongs to one build. -/
def Unchanged : Prop :=
  ∀ unit ∈ overlay.units, ∃ row ∈ store.units, row.id = unit.id ∧
    row.buildVariant = unit.buildVariant ∧
    row.buildConfigurationId = unit.buildConfigurationId ∧
    row.commandHash = unit.commandHash ∧ row.contentHash = unit.contentHash ∧
    row.dependencies = unit.dependencies

instance : Decidable (overlay.Unchanged store) := by
  unfold Unchanged
  infer_instance

/-- The store with the overlay's facts in the place of the units' own. -/
def replaceFacts : DeepStore Facts :=
  let dropped := (store.dropCache fun row => row.unit ∈ overlay.staleCallerUnits store).dropCache
    fun row => row.unit ∈ overlay.unitIds
  { dropped with
    summaries := (dropped.summaries.filter (·.unit ∉ overlay.unitIds)) ++ overlay.summaries }

def cacheRows : List (CacheRow Facts) :=
  overlay.units.map fun unit =>
    { unit := unit.id, buildVariant := unit.buildVariant,
      buildConfigurationId := unit.buildConfigurationId, identityHash := unit.identityHash,
      closureGenerationId := overlay.publication.closureGenerationId,
      provenance := overlay.provenance, complete := unit.complete, writtenAt := store.clock,
      covered := (overlay.replaceFacts store).unitFacts unit.id }

def mapped : List MappedUnit :=
  overlay.units.map fun unit => ⟨unit.id, unit.identityHash, unit.distance⟩

end Overlay

namespace DeepStore

variable {Facts : Type} (store : DeepStore Facts)

/-- `apply_deep_overlay`, committed. -/
def applyDeepOverlay (overlay : Overlay Facts) : Option (DeepStore Facts) :=
  if overlay.units ≠ [] ∧ overlay.Unchanged store then
    ((overlay.replaceFacts store).insertCache (overlay.cacheRows store)).bind fun store =>
      (store.insertToken overlay.publication overlay.provenance overlay.mapped).map fun store =>
        store.deleteInvalid.tick
  else none

/-! ## Publications of what is there -/

/-- `deep_cached_closure` -/
def deepCachedClosure (generation : String) (identities : List MappedUnit) :
    Option (List (CacheRow Facts)) :=
  let rows := store.cache.filter fun row => row.closureGenerationId = generation ∧
    row.unit ∈ identities.map MappedUnit.unit
  if identities ≠ [] ∧ rows.length = identities.length ∧
      store.cache.countP (·.closureGenerationId = generation) = identities.length ∧
      ∀ row ∈ rows, row.complete.all ∧
        (identities.find? (·.unit = row.unit)).map MappedUnit.identityHash =
          some row.identityHash then
    some rows
  else none

/-- `publish_deep_materialization_alias`, committed. -/
def publishAlias (publication : Publication) (identities : List MappedUnit) :
    Option (DeepStore Facts) :=
  (store.deepCachedClosure publication.closureGenerationId identities).bind fun cached =>
    cached.head?.bind fun first =>
      if ∀ row ∈ cached, row.provenance = first.provenance then
        (store.insertToken publication first.provenance identities).map tick
      else none

/-- The rows of a full-profile publication, from the units' own rows. -/
def fullProfileRows (publication : Publication) (provenance : Provenance)
    (identities : List MappedUnit) : List (CacheRow Facts) :=
  identities.flatMap fun identity =>
    (store.units.find? (·.id = identity.unit)).toList.map fun state =>
      { unit := identity.unit, buildVariant := state.buildVariant,
        buildConfigurationId := state.buildConfigurationId,
        identityHash := identity.identityHash,
        closureGenerationId := publication.closureGenerationId, provenance,
        complete := ⟨true, true, true, true⟩, writtenAt := store.clock,
        covered := store.unitFacts identity.unit }

/-- The units hold complete facts of this analyzer. -/
def FullFacts (publication : Publication) (provenance : Provenance)
    (identities : List MappedUnit) : Prop :=
  ∀ identity ∈ identities, ∃ state ∈ store.units, state.id = identity.unit ∧
    state.buildVariant ∈ publication.buildScope ∧ state.fullProfile ∧
    state.analyzerIdentity ≠ "" ∧ state.analyzerIdentity = provenance.analyzerIdentity ∧
    state.factsComplete.cfg ∧ state.factsComplete.dataFlow ∧ state.factsComplete.summaries

instance (publication : Publication) (provenance : Provenance) (identities : List MappedUnit) :
    Decidable (store.FullFacts publication provenance identities) := by
  unfold FullFacts
  infer_instance

/-- `publish_full_profile_materialization`, committed. -/
def publishFullProfile (publication : Publication) (provenance : Provenance)
    (identities : List MappedUnit) : Option (DeepStore Facts) :=
  if identities ≠ [] ∧ store.FullFacts publication provenance identities then
    ((store.dropCache fun row => row.unit ∈ identities.map MappedUnit.unit).insertCache
      (store.fullProfileRows publication provenance identities)).bind fun store =>
        (store.deleteInvalid.insertToken publication provenance identities).bind fun store =>
          (store.deepCachedClosure publication.closureGenerationId identities).map fun _ =>
            store.tick
  else none

end DeepStore

/-! ## Index runs -/

/-- An index run of one build.  `calls` are the build's call rows after staging and after the
refresh of the override candidates, `symbols` the symbols that are left, and `solve` gives the
facts that `_refresh_summary_solutions` writes. -/
structure IndexRun (Facts : Type) where
  buildVariant : String
  current : List String
  changed : List String
  units : List UnitRow
  summaries : List (SummaryRow Facts)
  calls : List CallRow
  symbols : List String
  solve : SummaryRow Facts → Facts

/-- The override candidates of a callsite: its owner, its unit and the rows in order. -/
def candidates (calls : List CallRow) (variant callsite : String) :
    List (String × String × String × List String) :=
  (calls.filter fun call => call.buildVariant = variant ∧ call.overrideCandidate ∧
    call.callsiteId = callsite).map fun call =>
      (call.owner, call.callerUnit, call.target, call.evidence)

/-- The rows of the callsites whose override candidates differ between two tables. -/
def changedCandidates (before after : List CallRow) (variant : String) : List CallRow :=
  (before ++ after).filter fun call => call.buildVariant = variant ∧ call.overrideCandidate ∧
    candidates before variant call.callsiteId ≠ candidates after variant call.callsiteId

namespace IndexRun

variable {Facts : Type} (run : IndexRun Facts) (store : DeepStore Facts)

/-- `replaced_ids` -/
def replacedUnits : List String :=
  ((store.units.filter fun unit => unit.buildVariant = run.buildVariant ∧
    unit.id ∉ run.current).map UnitRow.id) ++ run.changed

/-- The streamed units are the changed ones, and what they carry is theirs. -/
def Streams : Prop :=
  (∀ unit ∈ run.units, unit.id ∈ run.changed ∧ unit.buildVariant = run.buildVariant) ∧
    (run.units.map UnitRow.id).Nodup ∧ (∀ id ∈ run.changed, id ∈ run.units.map UnitRow.id) ∧
    (∀ row ∈ run.summaries, row.unit ∈ run.changed ∧ row.buildVariant = run.buildVariant) ∧
    ∀ call ∈ run.calls, call.buildVariant = run.buildVariant

instance : Decidable run.Streams := by
  unfold Streams
  infer_instance

/-- The functions with a summary in the units that the run replaces, before and after it. -/
def replacedFunctions : List String :=
  ((store.summaries.filter (·.unit ∈ run.replacedUnits store)) ++ run.summaries).map
    SummaryRow.function

/-- The store with the new units, summaries and calls of the build. -/
def stage : DeepStore Facts :=
  let dropped := store.dropCache fun row => row.unit ∈ run.replacedUnits store
  { dropped with
    units := (dropped.units.filter (·.id ∉ run.replacedUnits store)) ++ run.units
    summaries := (dropped.summaries.filter (·.unit ∉ run.replacedUnits store)) ++ run.summaries
    calls := (dropped.calls.filter (·.buildVariant ≠ run.buildVariant)) ++ run.calls }

/-- The calls of the build before the run, with those after it. -/
def changedCalls : List CallRow := changedCandidates store.calls run.calls run.buildVariant

/-- The functions of `_invalidate_changed_override_callers` -/
def overrideFunctions : List String :=
  let owners := (run.changedCalls store).map CallRow.owner
  owners ++ reverseSummaryCallers run.calls run.buildVariant owners

/-- Its `stale_units` -/
def overrideUnits : List String :=
  (run.changedCalls store).map CallRow.callerUnit ++
    ((run.stage store).summaries.filter fun row => row.buildVariant = run.buildVariant ∧
      row.function ∈ run.overrideFunctions store).map SummaryRow.unit

/-- `affected_functions`, with what the run tracked when it replaced the units. -/
def affectedFunctions : List String :=
  let replaced := (store.summaries.filter (·.unit ∈ run.replacedUnits store)).map
    SummaryRow.function
  let tracked := replaced ++ reverseSummaryCallers store.calls run.buildVariant replaced
  let affected := tracked ++ run.summaries.map SummaryRow.function ++ run.overrideFunctions store
  affected ++ reverseSummaryCallers run.calls run.buildVariant affected

/-- Whether `_refresh_summary_solutions` writes a summary. -/
def refreshes (row : SummaryRow Facts) : Bool :=
  row.buildVariant = run.buildVariant ∧ row.function ∈ run.affectedFunctions store

/-- `_refresh_summary_solutions` -/
def refresh (summaries : List (SummaryRow Facts)) : List (SummaryRow Facts) :=
  summaries.map fun row =>
    if run.refreshes store row then { row with facts := run.solve row } else row

end IndexRun

namespace DeepStore

variable {Facts : Type} (store : DeepStore Facts)

/-- The symbols that are left; a token goes with its root symbol. -/
def keepSymbols (symbols : List String) : DeepStore Facts :=
  { store with
    symbols
    tokens := store.tokens.filter fun token => token.publication.rootSymbolId ∈ symbols }

/-- `apply_ingestion_batches`, committed. -/
def applyIngestion (run : IndexRun Facts) : Option (DeepStore Facts) :=
  if run.Streams then
    let staged := (run.stage store).deleteInvalid.dropCache fun row =>
      row.buildVariant = run.buildVariant ∧ row.unit ∈ run.overrideUnits store
    let refreshed := { staged with summaries := run.refresh store staged.summaries }
    some (refreshed.keepSymbols run.symbols).deleteInvalid.tick
  else none

/-- `remove_build_variant`, committed. -/
def removeBuildVariant (variant : String) (symbols : List String) : DeepStore Facts :=
  let removed := (store.units.filter (·.buildVariant = variant)).map UnitRow.id
  let dropped := store.dropCache fun row => row.unit ∈ removed
  let kept := { dropped with
    units := dropped.units.filter (·.buildVariant ≠ variant)
    summaries := dropped.summaries.filter (·.unit ∉ removed)
    calls := dropped.calls.filter (·.callerUnit ∉ removed) }
  (kept.keepSymbols symbols).deleteInvalid.tick

end DeepStore

/-! ## Runs -/

inductive Operation (Facts : Type) where
  | index (run : IndexRun Facts)
  | overlay (overlay : Overlay Facts)
  | publishAlias (publication : Publication) (identities : List MappedUnit)
  | fullProfile (publication : Publication) (provenance : Provenance)
      (identities : List MappedUnit)
  | remove (variant : String) (symbols : List String)

namespace DeepStore

variable {Facts : Type} (store : DeepStore Facts)

/-- The state that an operation commits, unless it is refused. -/
def apply : Operation Facts → Option (DeepStore Facts)
  | .index run => store.applyIngestion run
  | .overlay overlay => store.applyDeepOverlay overlay
  | .publishAlias publication identities => store.publishAlias publication identities
  | .fullProfile publication provenance identities =>
      store.publishFullProfile publication provenance identities
  | .remove variant symbols => some (store.removeBuildVariant variant symbols)

/-- An operation is one transaction: refused, or interrupted anywhere, it leaves the state. -/
def attempt (operation : Operation Facts) (interrupted : Bool) : DeepStore Facts :=
  if interrupted then store else (store.apply operation).getD store

end DeepStore

end CppContextEngine.Storage.Deep
