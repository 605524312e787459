import Mathlib.Data.Rat.Floor
import Mathlib.Data.List.Infix
import Mathlib.Tactic.NormNum
import CppContextEngine.Foundation.Ranking
import CppContextEngine.Models.Symbols

/-!
# Hybrid retrieval

Three searches are fused by reciprocal rank, the best candidates are expanded
over the graph, and what is ranked then is packed into a bounded context.
Floats are rationals; the square root, case folding and number formatting are
parameters, and so are the adapters.
-/

namespace CppContextEngine.Retrieval

open CppContextEngine.Foundation CppContextEngine.Models

/-- The library functions behind the scores and texts. -/
class RankingLibrary where
  casefold : String → String
  sqrt : Rat → Rat
  /-- `f"{value:.2f}"` -/
  twoDecimals : Rat → String

/-! ## Settings and adapters -/

structure RetrievalConfig where
  searchLimit : Nat := 30
  candidateLimit : Nat := 80
  seedLimit : Nat := 6
  rrfK : Nat := 60
  graphDepth : Nat := 2
  maxExpansionSteps : Nat := 2
  graphNodeBudget : Nat := 30
  graphEdgeBudget : Nat := 100
  perNodeEdgeBudget : Nat := 20
  graphDecay : Rat := 18 / 25
  hubThreshold : Nat := 12
  charsPerToken : Rat := 4
  maxContextChars : Option Nat := none
  relations : List GraphRelation :=
    [.calls, .references, .inherits, .overrides, .usesType, .contains]
  sourceWeights : List (String × Rat) := [("lexical", 1), ("symbol", 23 / 20), ("vector", 9 / 10)]
  limitsPositive : 0 < searchLimit ∧ 0 < candidateLimit ∧ 0 < seedLimit ∧ 0 < rrfK ∧
    0 < graphNodeBudget ∧ 0 < graphEdgeBudget ∧ 0 < perNodeEdgeBudget := by decide
  decayRange : 0 < graphDecay ∧ graphDecay ≤ 1 := by norm_num
  thresholdsPositive : 0 < hubThreshold ∧ 0 < charsPerToken := by norm_num
  charsPositive : ∀ chars, maxContextChars = some chars → 0 < chars := by simp
  weightsPositive : ∀ entry ∈ sourceWeights, 0 < entry.2 := by norm_num

/-- The defaults. -/
def RetrievalConfig.standard : RetrievalConfig := {}

/-- What an adapter raises, by the name of its type. -/
inductive Raised where
  | typeError
  | other (name : String)
  deriving DecidableEq, Repr

def Raised.name : Raised → String
  | .typeError => "TypeError"
  | .other name => name

/-- `search(SearchQuery(text, limit))` -/
abbrev Backend := String → Nat → Except Raised (List (SearchHit Rat))

/-- `neighbors` takes its limits and its build only in the newer protocol. -/
structure GraphAdapter where
  neighbors : String → List GraphRelation → Option (Nat × String) → Except Raised (List GraphEdge)
  /-- The owner of each site, with one of its targets. -/
  callEvidence : Option (String → Bool → String → Nat →
    Except Raised (List (Identifier × CallTarget)))

structure SymbolAdapter where
  getSymbols : Option (List String → String → Except Raised (List (Option CodeSymbol)))
  getSymbol : String → Option String → Except Raised (Option CodeSymbol)

structure SourceReader where
  readSymbol : CodeSymbol → Except Raised String
  /-- The path that the reader's `display_path` or `project_root` makes of a span's path. -/
  displayPath : String → String

structure HybridRetriever where
  lexicalSearch : Backend
  symbolSearch : Backend
  vectorSearch : Backend
  symbolStore : SymbolAdapter
  sourceReader : SourceReader
  graph : Option GraphAdapter := none
  config : RetrievalConfig := .standard
  buildScope : BuildScope

/-! ## Candidates -/

structure ContextPathStep where
  sourceId : String
  targetId : String
  relation : GraphRelation
  deriving DecidableEq

/-- `_Candidate` -/
structure Candidate where
  hit : SearchHit Rat
  reasons : List String
  path : List ContextPathStep := []
  isSeed : Bool := false
  parentId : Option String := none
  hubDegree : Nat := 0
  deriving DecidableEq

/-- `_evidence_key` -/
def evidenceKey (symbol : CodeSymbol) : String :=
  if symbol.variantId = "" then symbol.buildVariant ++ ":" ++ symbol.text.id
  else symbol.variantId

/-- The key of a candidate in the dictionary that holds it. -/
def Candidate.key (candidate : Candidate) : String := evidenceKey candidate.hit.symbol

structure ContextItem where
  hit : SearchHit Rat
  sourceText : String
  reason : String
  path : List ContextPathStep
  deriving DecidableEq

structure ContextBundle where
  query : String
  renderedContext : String
  estimatedTokens : Int
  items : List ContextItem
  diagnostics : List String
  truncated : Bool
  buildVariants : List String
  scopeLabel : String
  deriving DecidableEq

inductive RetrievalError where
  | emptyQuery
  | maxTokens
  | maxResults
  | adapter (raised : Raised)
  deriving DecidableEq, Repr

/-! ## Fusion -/

/-- The entries of `fused_scores`, `symbols` and `reasons` under one key. -/
structure Fused where
  key : String
  score : Rat
  symbol : CodeSymbol
  reasons : List String

structure Fusion where
  fused : List Fused := []
  diagnostics : List String := []
  successfulSearches : Nat := 0
  truncated : Bool := false

def Fused.addTo (fused : List Fused) (hit : Fused) : List Fused :=
  if hit.key ∈ fused.map Fused.key then
    fused.map fun entry =>
      if entry.key = hit.key then
        { entry with
          score := entry.score + hit.score
          symbol := hit.symbol
          reasons := entry.reasons ++ hit.reasons }
      else entry
  else fused ++ [hit]

def Fused.candidate (entry : Fused) : Candidate where
  hit := ⟨entry.symbol, entry.score, "hybrid"⟩
  reasons := entry.reasons

/-- One hit of a search; `seen` holds the keys that this search has already given. -/
def fuseHit (name : String) (weight : Rat) (rrfK : Nat) (state : List String × List Fused)
    (ranked : SearchHit Rat × Nat) : List String × List Fused :=
  let (seen, fused) := state
  let (hit, rank) := ranked
  let key := evidenceKey hit.symbol
  if key ∈ seen then (seen, fused)
  else (seen ++ [key], Fused.addTo fused
    { key := key
      score := weight / (rrfK + rank)
      symbol := hit.symbol
      reasons := [name ++ " rank " ++ toString rank] })

namespace HybridRetriever

variable (r : HybridRetriever)

def searches : List (String × Backend) :=
  [("lexical", r.lexicalSearch), ("symbol", r.symbolSearch), ("vector", r.vectorSearch)]

def weightOf (name : String) : Rat :=
  ((r.config.sourceWeights.find? fun entry => entry.1 = name).map Prod.snd).getD 1

def searchLimit (resultLimit : Nat) : Nat := min r.config.searchLimit resultLimit

def fuseBackend (text : String) (resultLimit : Nat) (state : Fusion)
    (search : String × Backend) : Fusion :=
  let (name, backend) := search
  let searchLimit := r.searchLimit resultLimit
  match backend text searchLimit with
  | .error raised =>
      { state with
        diagnostics := state.diagnostics ++ [name ++ " search failed: " ++ raised.name] }
  | .ok rawHits =>
      { state with
        fused := (((rawHits.take searchLimit).zipIdx 1).foldl
          (fuseHit name (r.weightOf name) r.config.rrfK) ([], state.fused)).2
        successfulSearches := state.successfulSearches + 1
        truncated := state.truncated || decide (searchLimit ≤ rawHits.length) }

/-- The loop over the searches. -/
def fusion (text : String) (resultLimit : Nat) : Fusion :=
  r.searches.foldl (r.fuseBackend text resultLimit) {}

/-- The candidates that the limits leave of the fused hits, the best first. -/
def fusedCandidates (text : String) (resultLimit : Nat) : List Candidate :=
  (((r.fusion text resultLimit).fused.insertionSort fun entry other =>
    other.score ≤ entry.score).take (min r.config.candidateLimit resultLimit)).map
      Fused.candidate

def fusionDiagnostics (text : String) (resultLimit : Nat) : List String :=
  let state := r.fusion text resultLimit
  if state.successfulSearches = 0 then state.diagnostics ++ ["all candidate searches failed"]
  else state.diagnostics

/-! ## Expansion -/

structure Expansion where
  candidates : List Candidate
  queue : List (Candidate × Nat)
  visited : List String
  edgeCount : Nat := 0
  expandedNodes : Nat := 0
  budgetExhausted : Bool := false
  diagnostics : List String

/-- What is known of the calls around one symbol. -/
structure CallEvidence where
  targets : List ((Identifier × Identifier) × CallTarget) := []
  edges : List GraphEdge := []
  diagnostics : List String

def CallEvidence.target? (evidence : CallEvidence) (edge : GraphEdge) : Option CallTarget :=
  (evidence.targets.find? fun entry => entry.1 = (edge.sourceId, edge.targetId)).map Prod.snd

/-- The first target of a pair stays, unless a certain one follows. -/
def CallEvidence.add (evidence : CallEvidence) (item : Identifier × CallTarget) : CallEvidence :=
  let (owner, target) := item
  let pair := (owner, target.targetSymbolId)
  { evidence with
    targets :=
      if pair ∉ evidence.targets.map Prod.fst then evidence.targets ++ [(pair, target)]
      else if target.certainty = .certain then
        evidence.targets.map fun entry => if entry.1 = pair then (pair, target) else entry
      else evidence.targets
    edges := evidence.edges ++ [⟨owner, target.targetSymbolId, .calls, target.buildVariant⟩] }

def rawEdges (graph : GraphAdapter) (current : CodeSymbol) : Except Raised (List GraphEdge) :=
  match graph.neighbors current.text.id r.config.relations
      (some (r.config.perNodeEdgeBudget + 1, current.buildVariant)) with
  | .error .typeError => graph.neighbors current.text.id r.config.relations none
  | result => result

def gatherCalls (graph : GraphAdapter) (current : CodeSymbol) (diagnostics : List String) :
    CallEvidence :=
  match graph.callEvidence with
  | none => { diagnostics := diagnostics }
  | some callEvidence =>
      if GraphRelation.calls ∈ r.config.relations then
        [false, true].foldl (fun evidence incoming =>
          match callEvidence current.text.id incoming current.buildVariant
              (r.config.perNodeEdgeBudget + 1) with
          | .error raised =>
              { evidence with
                diagnostics := evidence.diagnostics ++ ["call evidence lookup failed for " ++
                  current.text.id ++ ": " ++ raised.name] }
          | .ok items => items.foldl CallEvidence.add evidence) { diagnostics := diagnostics }
      else { diagnostics := diagnostics }

/-- The edges in the order in which a hard budget keeps them. -/
def relevantEdges (raw : List GraphEdge) (evidence : CallEvidence) : List GraphEdge :=
  let edges := raw ++ evidence.edges.filter (· ∉ raw)
  sortBy (fun edge : GraphEdge => (toLex
    (decide ((evidence.target? edge).map CallTarget.certainty ≠ some .certain),
      [StrEnum.value edge.relation, edge.sourceId.val, edge.targetId.val]) : Bool ×ₗ List String))
    (edges.filter fun edge => edge.relation ∈ r.config.relations)

/-- The other end of an edge at `current`. -/
def neighborOf (current : CodeSymbol) (edge : GraphEdge) : Option String :=
  if edge.sourceId = current.text.id then some edge.targetId
  else if edge.targetId = current.text.id then some edge.sourceId
  else none

/-- The symbols that `get_symbols` gives for the ends of the edges, build by build. -/
def prefetch (current : CodeSymbol) (edges : List GraphEdge) :
    Except Raised (List ((String × String) × Option CodeSymbol)) :=
  match r.symbolStore.getSymbols with
  | none => .ok []
  | some getSymbols =>
      let grouped := edges.filterMap fun edge =>
        (neighborOf current edge).map fun neighbor => (edge.buildVariant, neighbor)
      (grouped.map Prod.fst).eraseDups.foldlM (fun prefetched build => do
        let ids := (grouped.filter fun entry => entry.1 = build).map Prod.snd
        let symbols ← getSymbols ids build
        -- `zip(…, strict=True)`
        if symbols.length = ids.length then
          return prefetched ++ (ids.zip symbols).map fun (id, symbol) => ((build, id), symbol)
        else throw (.other "ValueError")) []

/-- The symbol at the other end: the last one prefetched, or one looked up. -/
def fetchSymbol (prefetched : List ((String × String) × Option CodeSymbol)) (build id : String) :
    Except Raised (Option CodeSymbol) :=
  if prefetched.isEmpty then
    match r.symbolStore.getSymbol id (some build) with
    | .error .typeError => r.symbolStore.getSymbol id none
    | result => result
  else .ok ((prefetched.reverse.find? fun entry => entry.1 = (build, id)).bind Prod.snd)

variable [RankingLibrary]

def evidenceReason : Option CallTarget → String
  | none => ""
  | some target => "; call " ++ StrEnum.value target.certainty ++ ", confidence " ++
      RankingLibrary.twoDecimals target.confidence ++ ", derivation " ++ target.derivation ++
      ", build " ++ target.buildVariant

/-- The candidate at the end of `edge`: a new one, or the known one on its new path. -/
def reach (current : Candidate) (depth degree : Nat) (evidence : CallEvidence) (edge : GraphEdge)
    (symbol : CodeSymbol) (known : Option Candidate) : Candidate :=
  let path := current.path ++ [⟨edge.sourceId, edge.targetId, edge.relation⟩]
  let score := current.hit.score * r.config.graphDecay
  match known with
  | none =>
      { hit := ⟨symbol, score, "graph"⟩
        reasons := [StrEnum.value edge.relation ++ " neighbor at depth " ++
          toString (depth + 1) ++ evidenceReason (evidence.target? edge),
          "hub degree " ++ toString degree]
        path := path
        parentId := some current.key
        hubDegree := degree }
  | some candidate =>
      { candidate with
        hit := if candidate.hit.score < score then ⟨symbol, score, candidate.hit.source⟩
          else candidate.hit
        reasons := candidate.reasons ++ ["reached through " ++ StrEnum.value edge.relation]
        path := path
        parentId := some current.key
        hubDegree := degree }

/-- `candidates[key] = candidate` -/
def putCandidate (candidates : List Candidate) (candidate : Candidate) : List Candidate :=
  if candidate.key ∈ candidates.map Candidate.key then
    candidates.map fun other => if other.key = candidate.key then candidate else other
  else candidates ++ [candidate]

/-- The symbol behind an edge becomes a candidate; an enqueued candidate never changes again. -/
def visitSymbol (current : Candidate) (depth degree : Nat) (evidence : CallEvidence)
    (edge : GraphEdge) (symbol : CodeSymbol) (state : Expansion) : Expansion :=
  let key := evidenceKey symbol
  let candidate := r.reach current depth degree evidence edge symbol
    (state.candidates.find? fun candidate => candidate.key = key)
  { state with
    candidates := putCandidate state.candidates candidate
    queue := state.queue ++ [(candidate, depth + 1)]
    visited := state.visited ++ [key]
    expandedNodes := state.expandedNodes + 1 }

def visitEdge (current : Candidate) (depth degree : Nat) (evidence : CallEvidence)
    (prefetched : List ((String × String) × Option CodeSymbol)) (edge : GraphEdge)
    (state : Expansion) : Except Raised Expansion :=
  match neighborOf current.hit.symbol edge with
  | none => .ok state
  | some neighbor =>
      if edge.buildVariant ++ ":" ++ neighbor ∈ state.visited then .ok state
      else do
        match ← r.fetchSymbol prefetched edge.buildVariant neighbor with
        | none => return state
        | some symbol =>
            if evidenceKey symbol ∈ state.visited then return state
            else return r.visitSymbol current depth degree evidence edge symbol state

/-- The loop over the edges of one node, with its `break`. -/
def visitEdges (current : Candidate) (depth degree : Nat) (evidence : CallEvidence)
    (prefetched : List ((String × String) × Option CodeSymbol)) :
    List GraphEdge → Expansion → Except Raised Expansion
  | [], state => .ok state
  | edge :: edges, state =>
      if r.config.graphEdgeBudget ≤ state.edgeCount ∨
          r.config.graphNodeBudget ≤ state.expandedNodes then
        .ok { state with budgetExhausted := true }
      else do
        let state ← r.visitEdge current depth degree evidence prefetched edge
          { state with edgeCount := state.edgeCount + 1 }
        visitEdges current depth degree evidence prefetched edges state

def expandNode (graph : GraphAdapter) (current : Candidate) (depth : Nat) (state : Expansion) :
    Except Raised Expansion :=
  match r.rawEdges graph current.hit.symbol with
  | .error raised =>
      .ok { state with
        diagnostics := state.diagnostics ++ ["graph expansion failed for " ++
          current.hit.symbol.text.id ++ ": " ++ raised.name] }
  | .ok raw => do
      let evidence := r.gatherCalls graph current.hit.symbol state.diagnostics
      let relevant := r.relevantEdges raw evidence
      let limited := relevant.take r.config.perNodeEdgeBudget
      let prefetched ← r.prefetch current.hit.symbol limited
      r.visitEdges current depth relevant.length evidence prefetched limited
        { state with
          diagnostics := evidence.diagnostics
          budgetExhausted := state.budgetExhausted ||
            decide (r.config.perNodeEdgeBudget < relevant.length) }

def hardDepth : Nat := min r.config.graphDepth r.config.maxExpansionSteps

/-- One round of the loop over the queue. -/
def expandNext (graph : GraphAdapter) (current : Candidate) (depth : Nat) (state : Expansion) :
    Except Raised Expansion :=
  if r.hardDepth ≤ depth then .ok state
  else if r.config.graphNodeBudget ≤ state.expandedNodes then
    .ok { state with budgetExhausted := true }
  else r.expandNode graph current depth state

def expandLoop (graph : GraphAdapter) : Nat → Expansion → Except Raised Expansion
  | 0, state => .ok state
  | fuel + 1, state =>
      match state.queue with
      | [] => .ok state
      | (current, depth) :: queue =>
          if r.config.graphEdgeBudget ≤ state.edgeCount then .ok state
          else do
            let state ← r.expandNext graph current depth { state with queue := queue }
            expandLoop graph fuel state

/-- `_expand`: the candidates and the diagnostics after it. -/
def expand (seeds candidates : List Candidate) (diagnostics : List String) :
    Except Raised (List Candidate × List String) :=
  match r.graph with
  | none => .ok (candidates, diagnostics)
  | some graph =>
      if r.config.graphDepth = 0 then .ok (candidates, diagnostics)
      else do
        let state ← r.expandLoop graph (seeds.length + r.config.graphNodeBudget)
          { candidates := candidates
            queue := seeds.map fun seed => (seed, 0)
            visited := seeds.map Candidate.key
            diagnostics := diagnostics }
        return (state.candidates,
          if state.queue ≠ [] ∨ state.budgetExhausted = true then
            state.diagnostics ++ ["graph expansion stopped at configured budget"]
          else state.diagnostics)

/-! ## Ranking -/

def isWordStart (c : Char) : Bool := c.isAlpha || c == '_'

def isWordPart (c : Char) : Bool := c.isAlphanum || c == '_'

/-- The words of a text, read after the start `current` of a word. -/
def wordsFrom (current : List Char) : List Char → List String
  | [] => if current = [] then [] else [String.ofList current]
  | c :: text =>
      if current = [] then wordsFrom (if isWordStart c then [c] else []) text
      else if isWordPart c then wordsFrom (current ++ [c]) text
      else String.ofList current :: wordsFrom [] text

/-- The set of the folded matches of `_WORD_PATTERN`. -/
def termsOf (text : String) : List String :=
  ((wordsFrom [] text.toList).map RankingLibrary.casefold).dedup

def rerankScore (query : String) (candidate : Candidate) : Rat :=
  let text := candidate.hit.symbol.text
  let queryTerms := termsOf query
  let symbolTerms := termsOf (text.qualifiedName ++ " " ++ text.signature ++ " " ++
    text.documentation)
  let overlap : Rat := (queryTerms.filter (· ∈ symbolTerms)).length / max 1 queryTerms.length
  let exactName : Rat :=
    if (RankingLibrary.casefold text.qualifiedName).toList <:+:
        (RankingLibrary.casefold query).toList then 1 else 0
  let score := candidate.hit.score * (1 + 7 / 20 * overlap + 1 / 5 * exactName)
  if r.config.hubThreshold < candidate.hubDegree then
    score / RankingLibrary.sqrt (candidate.hubDegree / r.config.hubThreshold)
  else score

/-- `_rerank` -/
def rerank (query : String) (candidates : List Candidate) (updateScores : Bool) :
    List Candidate :=
  let scored := candidates.map fun candidate => (r.rerankScore query candidate, candidate)
  let ordered := sortBy (fun entry : Rat × Candidate => OrderDual.toDual (toLex (entry.1,
    toLex (entry.2.isSeed, entry.2.hit.symbol.text.qualifiedName.val)) :
      Rat ×ₗ Bool ×ₗ String)) scored
  ordered.map fun (score, candidate) =>
    if updateScores then { candidate with hit := { candidate.hit with score := score } }
    else candidate

/-! ## Packing -/

def isRoot (candidate : Candidate) : Bool := candidate.parentId.isNone || candidate.isSeed

def byScore (candidates : List Candidate) : List Candidate :=
  candidates.insertionSort fun candidate other => other.hit.score ≤ candidate.hit.score

/-- `by_parent.get(key, ())` -/
def byParent (ranked : List Candidate) (key : String) : List Candidate :=
  byScore (ranked.filter fun candidate => !isRoot candidate && candidate.parentId == some key)

/-- The loop over the queue of one root. -/
def connect (ranked : List Candidate) :
    Nat → List Candidate → List Candidate → Option (List Candidate)
  | _, [], ordered => some ordered
  | 0, _ :: _, _ => none
  | fuel + 1, candidate :: queue, ordered =>
      if candidate.key ∈ ordered.map Candidate.key then connect ranked fuel queue ordered
      else connect ranked fuel (queue ++ byParent ranked candidate.key) (ordered ++ [candidate])

/-- The candidates root by root, each root followed by what was reached from it. -/
def connected (ranked : List Candidate) : Option (List Candidate) :=
  let fuel := (ranked.map fun candidate => (byParent ranked candidate.key).length).sum + 1
  (byScore (ranked.filter isRoot)).foldlM (fun ordered root => connect ranked fuel [root] ordered)
    []

def renderShell (candidate : Candidate) (reason : String) : String × String :=
  let symbol := candidate.hit.symbol
  let path :=
    if candidate.path = [] then "search seed"
    else " -> ".intercalate (candidate.path.map fun step =>
      step.sourceId ++ " -[" ++ StrEnum.value step.relation ++ "]-> " ++ step.targetId)
  ("### " ++ symbol.text.qualifiedName ++ "\nSymbol-ID: " ++ symbol.text.id ++
    "\nBuild: " ++ symbol.buildVariant ++
    "\nLocation: " ++ r.sourceReader.displayPath symbol.text.span.path ++ ":" ++
    toString symbol.text.span.startLine ++ "-" ++ toString symbol.text.span.endLine ++
    "\nSelected: " ++ reason ++ "\nPath: " ++ path ++ "\n```cpp\n",
   "\n```\n\n")

def truncationMark : String := "\n… [truncated]"

structure Packing where
  items : List ContextItem := []
  rendered : String := ""
  truncated : Bool
  diagnostics : List String

def Packing.add (state : Packing) (candidate : Candidate) (reason source full : String)
    (sourceTruncated : Bool) : Packing :=
  { state with
    items := state.items ++ [⟨candidate.hit, source, reason, candidate.path⟩]
    rendered := state.rendered ++ full
    truncated := state.truncated || sourceTruncated }

def reasonText (candidate : Candidate) : String := "; ".intercalate candidate.reasons.eraseDups

/-- The loop over the ordered candidates, with its breaks. -/
def packLoop (charBudget : Int) (maxResults : Nat) : List Candidate → Packing → Packing
  | [], state => state
  | candidate :: ordered, state =>
      if maxResults ≤ state.items.length then { state with truncated := true }
      else
        match r.sourceReader.readSymbol candidate.hit.symbol with
        | .error raised =>
            packLoop charBudget maxResults ordered
              { state with
                diagnostics := state.diagnostics ++ ["source read failed for " ++
                  candidate.hit.symbol.text.id ++ ": " ++ raised.name] }
        | .ok source =>
            let reason := reasonText candidate
            let (shellStart, shellEnd) := r.renderShell candidate reason
            let remaining := charBudget - state.rendered.length
            let full := shellStart ++ source ++ shellEnd
            if (full.length : Int) ≤ remaining then
              packLoop charBudget maxResults ordered (state.add candidate reason source full false)
            else
              let available := remaining - shellStart.length - shellEnd.length -
                truncationMark.length
              if available ≤ 0 then { state with truncated := true }
              else
                let cut := String.ofList (source.toList.take available.toNat) ++ truncationMark
                state.add candidate reason cut (shellStart ++ cut ++ shellEnd) true

def charBudget (maxTokens : Nat) : Int :=
  let budget := ⌊(maxTokens : Rat) * r.config.charsPerToken⌋
  match r.config.maxContextChars with
  | none => budget
  | some chars => min budget chars

def scopeLabel : String :=
  (if 1 < r.buildScope.variants.length then "union" else "build") ++ ":" ++
    ",".intercalate r.buildScope.variants

/-- `_pack` -/
def pack (query : String) (ranked : List Candidate) (maxTokens maxResults : Nat)
    (diagnostics : List String) (candidatesTruncated : Bool) : ContextBundle :=
  let ordered := (connected ranked).getD []
  let packed := r.packLoop (r.charBudget maxTokens) maxResults ordered
    { truncated := candidatesTruncated, diagnostics := diagnostics }
  { query := query
    renderedContext := packed.rendered
    estimatedTokens := ⌈(packed.rendered.length : Rat) / r.config.charsPerToken⌉
    items := packed.items
    diagnostics := packed.diagnostics.eraseDups
    truncated := packed.truncated || decide (packed.items.length < ordered.length)
    buildVariants := r.buildScope.variants
    scopeLabel := r.scopeLabel }

/-! ## The whole request -/

def resultLimit (maxResults : Option Nat) : Nat := maxResults.getD r.config.candidateLimit

def markSeed (candidate : Candidate) : Candidate :=
  { candidate with
    isSeed := true
    reasons := candidate.reasons ++ ["selected as a fused search seed"] }

/-- The candidates of the first ranking, those that are seeds marked. -/
def seeded (query : String) (candidates : List Candidate) : List Candidate × List Candidate :=
  let seeds := (r.rerank query candidates false).take r.config.seedLimit
  (seeds.map markSeed, candidates.map fun candidate =>
    if candidate.key ∈ seeds.map Candidate.key then markSeed candidate else candidate)

/-- The candidates after graph expansion, with the diagnostics so far. -/
def expandedCandidates (query : String) (resultLimit : Nat) :
    Except Raised (List Candidate × List String) :=
  let (seeds, candidates) := r.seeded query (r.fusedCandidates query resultLimit)
  r.expand seeds candidates (r.fusionDiagnostics query resultLimit)

/-- `retrieve` -/
def retrieve (query : String) (maxTokens : Nat) (maxResults : Option Nat) :
    Except RetrievalError ContextBundle :=
  if isBlank query then .error .emptyQuery
  else if maxTokens = 0 then .error .maxTokens
  else if maxResults = some 0 then .error .maxResults
  else
    let limit := r.resultLimit maxResults
    if r.fusedCandidates query limit = [] then
      .ok
        { query := query
          renderedContext := ""
          estimatedTokens := 0
          items := []
          diagnostics := (r.fusionDiagnostics query limit)
          truncated := false
          buildVariants := r.buildScope.variants
          scopeLabel := r.scopeLabel }
    else
      match r.expandedCandidates query limit with
      | .error raised => .error (.adapter raised)
      | .ok (expanded, diagnostics) =>
          .ok (r.pack query (r.rerank query expanded true) maxTokens limit diagnostics
            (r.fusion query limit).truncated)

end HybridRetriever

end CppContextEngine.Retrieval
