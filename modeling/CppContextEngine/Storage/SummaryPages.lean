import CppContextEngine.Storage.SummaryPayload
import CppContextEngine.Storage.SymbolTables

/-!
# Pages of summary facts

The local facts of a summary are rows of the database, the propagated ones are
in its payload.  A page merges the payload with as many rows as the page can
hold and one more.
-/

namespace CppContextEngine.Storage

open CppContextEngine.Foundation CppContextEngine.Models

/-- The columns that `summary_effects` and `summary_return_origins` share. -/
class SummaryFact (α : Type) where
  id : α → String
  summaryId : α → String
  kind : α → String
  certainty : α → DataFlowCertainty
  isLocal : α → Bool
  buildVariant : α → String

instance : SummaryFact SummaryEffect where
  id := SummaryEffect.id
  summaryId := SummaryEffect.summaryId
  kind item := StrEnum.value item.kind
  certainty := SummaryEffect.certainty
  isLocal := SummaryEffect.isLocal
  buildVariant := SummaryEffect.buildVariant

instance : SummaryFact SummaryReturnOrigin where
  id := SummaryReturnOrigin.id
  summaryId := SummaryReturnOrigin.summaryId
  kind item := StrEnum.value item.kind
  certainty := SummaryReturnOrigin.certainty
  isLocal := SummaryReturnOrigin.isLocal
  buildVariant := SummaryReturnOrigin.buildVariant

/-- A row of one of the two tables, decoded. -/
structure FactRow (α : Type) where
  projectId : Nat
  fact : α
  deriving DecidableEq

/-- The columns of `function_summaries` that the join reads. -/
structure SummaryRow where
  projectId : Nat
  id : String
  buildVariant : String
  deriving DecidableEq

/-- A row of `summary_solution_payloads`. -/
structure PayloadRow where
  projectId : Nat
  summaryId : String
  encoding : SqlValue
  effectCount : SqlValue
  originCount : SqlValue
  uncompressedBytes : SqlValue
  payloadHash : SqlValue
  payload : Bytes

def PayloadRow.stored (row : PayloadRow) : StoredPayload where
  encoding := row.encoding
  effectCount := row.effectCount
  originCount := row.originCount
  uncompressedBytes := row.uncompressedBytes
  payloadHash := row.payloadHash
  payload := .blob row.payload

/-- The tables that a page reads. -/
structure SummaryStore extends SymbolStore where
  effects : List (FactRow SummaryEffect)
  origins : List (FactRow SummaryReturnOrigin)
  summaries : List SummaryRow
  payloads : List PayloadRow
  /-- `PRIMARY KEY (project_id, id)` -/
  effectKeys : (effects.map fun row => (row.projectId, row.fact.id)).Nodup
  originKeys : (origins.map fun row => (row.projectId, row.fact.id)).Nodup

/-- What a page raises. -/
inductive PageError where
  | store (error : StoreError)
  | payload (error : DecodeError)
  deriving DecidableEq, Repr

structure BoundedCfgResult (α : Type) where
  items : List α
  truncated : Bool
  deriving DecidableEq

def maxCfgPageSize : Int := 10000

/-- `_cfg_limit` -/
def cfgLimit (limit : Int) : Except PageError Nat :=
  if ¬ (1 ≤ limit ∧ limit ≤ maxCfgPageSize) then .error (.store .valueError)
  else .ok limit.toNat

section Facts

variable {α : Type} [SummaryFact α]

/-- `_summary_effect_order` and `_summary_origin_order` -/
def factOrder (item : α) : Nat ×ₗ Nat ×ₗ String ×ₗ String :=
  toLex (if SummaryFact.certainty item = .certain then 0 else 1,
    toLex (if SummaryFact.isLocal item then 0 else 1,
      toLex (SummaryFact.kind item, SummaryFact.id item)))

/-- `CASE certainty WHEN 'certain' THEN 0 ELSE 1 END, is_local DESC, kind, id` -/
def queryOrder (item : α) : Nat ×ₗ Boolᵒᵈ ×ₗ String ×ₗ String :=
  toLex (match StrEnum.value (SummaryFact.certainty item) with
    | "certain" => 0
    | _ => 1,
    toLex (OrderDual.toDual (SummaryFact.isLocal item),
      toLex (SummaryFact.kind item, SummaryFact.id item)))

/-- `WHERE project_id = ? AND summary_id = ? AND is_local = 1 AND build_variant IN (…)` -/
def localFacts (rows : List (FactRow α)) (projectId : Nat) (summaryId : String)
    (names : List String) : List α :=
  (rows.filter fun row => row.projectId = projectId ∧ SummaryFact.summaryId row.fact = summaryId ∧
    SummaryFact.isLocal row.fact = true ∧ SummaryFact.buildVariant row.fact ∈ names).map
      FactRow.fact

end Facts

namespace SummaryStore

variable [Zlib] [PayloadLibrary] (store : SummaryStore)

/-- `_summary_solution_payload` -/
def summarySolutionPayload (projectId : Nat) (summaryId : String) (buildVariants : List String) :
    Except PageError (List SummaryEffect × List SummaryReturnOrigin) :=
  match store.payloads.find? fun row => row.projectId = projectId ∧ row.summaryId = summaryId ∧
      ∃ summary ∈ store.summaries, summary.projectId = row.projectId ∧
        summary.id = row.summaryId ∧ summary.buildVariant ∈ buildVariants with
  | none => .ok ([], [])
  | some row =>
      if maxSummaryPayloadCompressedBytes < row.payload.length then
        .error (.payload (.payload .compressedSizeLimit))
      else (decodeSummaryPayload summaryId row.stored).mapError .payload

/-- The query, the payload and the merge that the two pages share. -/
def factPage {α : Type} [SummaryFact α] (rows : List (FactRow α))
    (propagated : List SummaryEffect × List SummaryReturnOrigin → List α) (summaryId : String)
    (root : Option String) (scope : Option BuildScope) (limit : Int) :
    Except PageError (BoundedCfgResult α) := do
  let limit ← cfgLimit limit
  let projectId ← (store.projectIdOf root).mapError .store
  let names := store.scopeNames scope
  let localRows := (sortBy queryOrder (localFacts rows projectId summaryId names)).take (limit + 1)
  let payload ← store.summarySolutionPayload projectId summaryId names
  let combined := sortBy factOrder (localRows ++ propagated payload)
  return { items := combined.take limit, truncated := limit < combined.length }

/-- `summary_effects` -/
def summaryEffects (summaryId : String) (root : Option String) (scope : Option BuildScope)
    (limit : Int) : Except PageError (BoundedCfgResult SummaryEffect) :=
  store.factPage store.effects Prod.fst summaryId root scope limit

/-- `summary_return_origins` -/
def summaryReturnOrigins (summaryId : String) (root : Option String) (scope : Option BuildScope)
    (limit : Int) : Except PageError (BoundedCfgResult SummaryReturnOrigin) :=
  store.factPage store.origins Prod.snd summaryId root scope limit

/-! ## Pages and the whole order -/

/-- All facts of a summary, local and propagated, in their merged order. -/
def allFacts {α : Type} [SummaryFact α] (rows : List (FactRow α))
    (propagated : List SummaryEffect × List SummaryReturnOrigin → List α) (summaryId : String)
    (root : Option String) (scope : Option BuildScope) : Except PageError (List α) := do
  let projectId ← (store.projectIdOf root).mapError .store
  let names := store.scopeNames scope
  let payload ← store.summarySolutionPayload projectId summaryId names
  return sortBy factOrder (localFacts rows projectId summaryId names ++ propagated payload)

def allEffects (summaryId : String) (root : Option String) (scope : Option BuildScope) :
    Except PageError (List SummaryEffect) :=
  store.allFacts store.effects Prod.fst summaryId root scope

def allReturnOrigins (summaryId : String) (root : Option String) (scope : Option BuildScope) :
    Except PageError (List SummaryReturnOrigin) :=
  store.allFacts store.origins Prod.snd summaryId root scope

/-- The page of all facts under a limit. -/
def pageOf {α : Type} (limit : Nat) (items : List α) : BoundedCfgResult α where
  items := items.take limit
  truncated := limit < items.length

end SummaryStore

/-! ## The two orders -/

section Facts

variable {α : Type} [SummaryFact α]

theorem queryOrder_le_iff (item other : α) :
    queryOrder item ≤ queryOrder other ↔ factOrder item ≤ factOrder other := by
  have hcertain : ∀ item : α, (match StrEnum.value (SummaryFact.certainty item) with
      | "certain" => 0
      | _ => 1) = if SummaryFact.certainty item = .certain then 0 else 1 := by
    intro item
    cases SummaryFact.certainty item <;> simp [StrEnum.value]
  simp only [queryOrder, factOrder, hcertain]
  cases SummaryFact.isLocal item <;> cases SummaryFact.isLocal other <;>
    simp [Prod.Lex.toLex_le_toLex]

theorem nodup_factOrder {rows : List (FactRow α)}
    (hkeys : (rows.map fun row => (row.projectId, SummaryFact.id row.fact)).Nodup)
    (projectId : Nat) (summaryId : String) (names : List String) :
    ((localFacts rows projectId summaryId names).map factOrder).Nodup := by
  unfold localFacts
  rw [List.map_map]
  apply List.Nodup.map_on
  · intro row hrow other hother h
    simp only [List.mem_filter, decide_eq_true_eq] at hrow hother
    have hid : SummaryFact.id row.fact = SummaryFact.id other.fact := by
      simp only [Function.comp_apply, factOrder, toLex_inj, Prod.mk.injEq] at h
      exact h.2.2.2
    apply List.inj_on_of_nodup_map hkeys hrow.1 hother.1
    rw [hrow.2.1, hother.2.1, hid]
  · exact hkeys.of_map.filter _

end Facts

namespace SummaryStore

variable [Zlib] [PayloadLibrary] (store : SummaryStore)

theorem factPage_eq {α : Type} [SummaryFact α] {rows : List (FactRow α)}
    (hkeys : (rows.map fun row => (row.projectId, SummaryFact.id row.fact)).Nodup)
    (propagated : List SummaryEffect × List SummaryReturnOrigin → List α) (summaryId : String)
    (root : Option String) (scope : Option BuildScope) (limit : Int) :
    store.factPage rows propagated summaryId root scope limit =
      if 1 ≤ limit ∧ limit ≤ maxCfgPageSize then
        (store.allFacts rows propagated summaryId root scope).map (pageOf limit.toNat)
      else .error (.store .valueError) := by
  unfold factPage allFacts cfgLimit
  by_cases hlimit : 1 ≤ limit ∧ limit ≤ maxCfgPageSize
  swap
  · simp [hlimit, bind, Except.bind]
  · cases hproject : store.projectIdOf root with
    | error error => simp [hlimit, bind, Except.bind, Except.mapError, Except.map]
    | ok projectId =>
        cases hpayload : store.summarySolutionPayload projectId summaryId
            (store.scopeNames scope) with
        | error error =>
            simp [hlimit, hpayload, bind, Except.bind, Except.mapError, Except.map]
        | ok payload =>
            have hnodup := nodup_factOrder hkeys projectId summaryId (store.scopeNames scope)
            have hitems := take_sortBy_append factOrder (propagated payload) hnodup
              (Nat.le_succ limit.toNat)
            simp only [hlimit, hpayload, bind, Except.bind, Except.mapError, Except.map, pageOf,
              pure, Except.pure, sortBy_congr queryOrder queryOrder_le_iff, and_self, not_true_eq_false,
              if_false, if_true, Nat.succ_eq_add_one] at hitems ⊢
            rw [hitems]
            simp
            omega

/-- A page is the first facts of the whole order, and it says whether there are more. -/
theorem summaryFacts_page (summaryId : String) (root : Option String)
    (scope : Option BuildScope) (limit : Int) :
    store.summaryEffects summaryId root scope limit =
      (if 1 ≤ limit ∧ limit ≤ maxCfgPageSize then
        (store.allEffects summaryId root scope).map (pageOf limit.toNat)
      else .error (.store .valueError)) ∧
    store.summaryReturnOrigins summaryId root scope limit =
      if 1 ≤ limit ∧ limit ≤ maxCfgPageSize then
        (store.allReturnOrigins summaryId root scope).map (pageOf limit.toNat)
      else .error (.store .valueError) :=
  ⟨store.factPage_eq store.effectKeys Prod.fst summaryId root scope limit,
    store.factPage_eq store.originKeys Prod.snd summaryId root scope limit⟩

end SummaryStore

end CppContextEngine.Storage
