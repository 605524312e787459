import CppContextEngine.Analyzer.WireFacts

/-!
# Sort keys of the facts with source evidence

Every visitor resolves a source range to a span and builds the sort key of its
fact from keys and bare offsets.  A source location has a position where it is
spelled and one where it is expanded, each in a file of the translation unit.
-/

namespace CppContextEngine.Analyzer.SinkKeys

open CppContextEngine.Foundation

/-! ## Positions and spans -/

/-- A decomposed location; one path may have several file ids. -/
structure Position where
  file : Nat
  offset : Nat
  deriving DecidableEq, Repr

/-- A valid `SourceLocation` -/
structure Location where
  spelling : Position
  expansion : Position
  deriving DecidableEq, Repr

/-- A location in a file. -/
def Location.written (file offset : Nat) : Location := ⟨⟨file, offset⟩, ⟨file, offset⟩⟩

def Location.resolve (location : Location) (spelling : Bool) : Position :=
  if spelling then location.spelling else location.expansion

/-- `SourceRange`, from its first token to its last one. -/
structure Range where
  first : Location
  last : Location
  deriving DecidableEq, Repr

structure Span where
  path : String
  startLine : Nat
  startColumn : Nat
  endLine : Nat
  endColumn : Nat
  deriving DecidableEq, Repr

/-- A path and lines of it. -/
structure Place where
  path : String
  startLine : Nat
  endLine : Nat
  deriving DecidableEq, Repr

def Span.place (span : Span) : Place := ⟨span.path, span.startLine, span.endLine⟩

/-- The source manager and the lexer, with the canonical paths of the files. -/
structure SourceManager where
  path : Nat → Option String
  /-- `relativePath`, of paths in the project alone. -/
  relativePath : String → Option String
  line : Position → Nat
  column : Position → Nat
  /-- `Lexer::getLocForEndOfToken` -/
  tokenEnd : Position → Option Position
  /-- `Lexer::makeFileCharRange` of a range whose ends lie in different files. -/
  fileCharRange : Range → Option (Position × Position)
  contiguousSpelling : Range → Bool

namespace SourceManager

variable (sources : SourceManager)

/-- `isOrderedFileRange` -/
def ordered (first last : Position) : Bool := first.file = last.file ∧ first.offset ≤ last.offset

/-- `SourceFacts::span` once the ends are resolved. -/
def fileSpan (first last : Position) (endIsExclusive : Bool) : Option Span := do
  guard (ordered first last)
  let path ← sources.path first.file
  guard (sources.relativePath path).isSome
  let last := if endIsExclusive then last else (sources.tokenEnd last).getD last
  guard (ordered first last)
  return ⟨path, sources.line first, sources.column first, sources.line last, sources.column last⟩

/-- `SourceFacts::span` -/
def span (range : Range) (spelling : Bool) : Option Span :=
  let first := range.first.resolve spelling
  let last := range.last.resolve spelling
  if first.file ≠ last.file then
    (sources.fileCharRange range).bind fun ends => sources.fileSpan ends.1 ends.2 true
  else if spelling ∧ ¬ sources.contiguousSpelling range then none
  else sources.fileSpan first last false

end SourceManager

/-! ## Keys -/

/-- The words with which `declKey`, `macroKey` and `fileKey` begin. -/
def keyWords : List String := ["usr", "lambda", "fallback", "macro", "file"]

structure SymbolKey where
  text : String
  word : ∃ word ∈ keyWords, ∃ rest, text = word ++ ":" ++ rest

@[ext]
theorem SymbolKey.ext {key key' : SymbolKey} (h : key.text = key'.text) : key = key' := by
  cases key
  cases key'
  congr

instance : DecidableEq SymbolKey := fun key key' =>
  decidable_of_iff (key.text = key'.text) ⟨SymbolKey.ext, fun h => h ▸ rfl⟩

/-- The key of a declaration with a USR. -/
def SymbolKey.usr (usr : String) : SymbolKey := ⟨"usr:" ++ usr, "usr", by decide, usr, rfl⟩

/-- `fileKey` -/
def fileKey (sources : SourceManager) (path : String) : SymbolKey :=
  ⟨"file:" ++ (sources.relativePath path).getD "unknown", "file", by decide, _, rfl⟩

/-- `getStmtClassName`, an identifier. -/
structure StmtClass where
  name : String
  identifier : ':' ∉ name.toList

/-- The coordinates of a callsite. -/
structure CallSite where
  owner : SymbolKey
  stmtClass : StmtClass
  range : Range

namespace CallSite

/-- What the key says of a callsite: no file, and of the end no spelling. -/
def coordinates (site : CallSite) : String :=
  site.owner.text ++ ":" ++ site.stmtClass.name ++ ":" ++
    toString site.range.first.spelling.offset ++ ":" ++
    toString site.range.first.expansion.offset ++ ":" ++
    toString site.range.last.expansion.offset

/-- The callsite key, which four functions build. -/
def key (site : CallSite) : String := "callsite" ++ ":" ++ site.coordinates

end CallSite

/-! ## Facts -/

/-- The relations of `emitRelationship` -/
inductive Relation where
  | calls
  | references
  | usesType
  | inherits
  | overrides
  | specializes
  | instantiates
  deriving DecidableEq, Repr

inductive OccurrenceKind where
  | call
  | type
  | reference
  deriving DecidableEq, Repr

namespace Relation

def name : Relation → String
  | calls => "calls"
  | references => "references"
  | usesType => "uses_type"
  | inherits => "inherits"
  | overrides => "overrides"
  | specializes => "specializes"
  | instantiates => "instantiates"

/-- The kind of occurrence that the visitors pass with a relation. -/
def occurrenceKind : Relation → OccurrenceKind
  | calls => .call
  | usesType | inherits => .type
  | references | overrides | specializes | instantiates => .reference

def addReference : Relation → Bool
  | calls | references | usesType | inherits => true
  | overrides | specializes | instantiates => false

/-- The edges that one relationship leaves. -/
def edges (relation : Relation) : List Relation :=
  relation :: if relation.addReference ∧ relation ≠ references then [references] else []

end Relation

def OccurrenceKind.name : OccurrenceKind → String
  | call => "call"
  | type => "type"
  | reference => "reference"

/-- The kind of the occurrence of a declaration. -/
def declarationKind (isDefinition : Bool) : String :=
  if isDefinition then "definition" else "declaration"

/-- The storage that an argument binding names. -/
structure Storage where
  locationKey : Option String
  locationKind : String
  accessPath : List String
  writebackCandidate : Bool
  parameterIndex : Option Nat
  deriving DecidableEq, Repr

inductive EdgeEmission where
  | related (relation : Relation) (source target : SymbolKey) (evidence : Nat) (span : Span)
  | contains (container key : SymbolKey)
  | generatedByMacro (owner frame : SymbolKey) (evidence : Nat) (span : Span)

inductive OccurrenceEmission where
  | related (kind : OccurrenceKind) (target source : SymbolKey) (evidence : Nat) (span : Span)
  | declared (key : SymbolKey) (isDefinition : Bool) (path : String) (evidence : Nat)
      (enclosing : Option SymbolKey) (span : Span)
  | macroDefined (key : SymbolKey) (span : Span)

inductive TargetEmission where
  | resolved (site : CallSite) (target : SymbolKey) (span : Span)
  | dataFlow (site : CallSite) (target : SymbolKey) (span : Span)

/-- What is handed to `FactSink::add`, of the facts with keys made of offsets. -/
inductive Emission where
  | edge (fact : EdgeEmission)
  | occurrence (fact : OccurrenceEmission)
  | expansion (key : SymbolKey) (usePath : String) (evidence : Nat) (spelling span : Span)
  | inclusion (source target : SymbolKey) (sourcePath targetPath : String) (evidence : Nat)
      (span : Option Span)
  | callsite (site : CallSite) (staticTarget : Option SymbolKey) (spelling : Option Span)
      (span : Span)
  | target (fact : TargetEmission)
  | argumentBinding (site : CallSite) (index : Nat) (storage : Storage)
  | resultBinding (site : CallSite) (location definition : String)

/-! ## Sort keys -/

/-- Two keys, one after the other. -/
def joined (first last : String) : String := first ++ ":" ++ last

def EdgeEmission.word : EdgeEmission → String
  | related relation .. => relation.name
  | contains .. => "contains"
  | generatedByMacro .. => "generated_by_macro"

def EdgeEmission.rest : EdgeEmission → String
  | related _ source target evidence _ =>
      joined source.text target.text ++ ":" ++ toString evidence
  | contains container key => joined container.text key.text
  | generatedByMacro owner frame evidence _ =>
      joined owner.text frame.text ++ ":" ++ toString evidence

/-- The sort key of an occurrence behind its first colon. -/
def OccurrenceEmission.rest : OccurrenceEmission → String
  | related kind target _ evidence _ =>
      kind.name ++ ":" ++ (target.text ++ ":" ++ toString evidence)
  | declared key isDefinition path evidence _ _ =>
      joined key.text (joined (declarationKind isDefinition) path) ++ ":" ++ toString evidence
  | macroDefined key _ => key.text

def TargetEmission.rest : TargetEmission → String
  | resolved site target _ => joined site.key target.text
  | dataFlow site target _ => "data-flow" ++ ":" ++ joined site.key target.text

namespace Emission

def word : Emission → String
  | edge _ => "edge"
  | occurrence _ => "occurrence"
  | expansion .. => "macro-expansion"
  | inclusion .. => "include"
  | callsite .. => "callsite"
  | target _ => "call-target"
  | argumentBinding .. => "call-argument-binding"
  | resultBinding .. => "call-result-binding"

def rest : Emission → String
  | edge fact => fact.word ++ ":" ++ fact.rest
  | occurrence fact => fact.rest
  | expansion key usePath evidence _ _ => joined key.text usePath ++ ":" ++ toString evidence
  | inclusion _ _ sourcePath targetPath evidence _ =>
      joined sourcePath targetPath ++ ":" ++ toString evidence
  | callsite site _ _ _ => site.key
  | target fact => fact.rest
  | argumentBinding site index _ => site.key ++ ":" ++ toString index
  | resultBinding site _ _ => site.key

def sortKey (emission : Emission) : String := emission.word ++ ":" ++ emission.rest

end Emission

/-! ## Contents -/

/-- A fact by its kind, ends, enclosing symbol, lines and storage. -/
inductive Content where
  | edge (relation source target : String) (place : Option Place)
  | occurrence (kind symbol : String) (enclosing : Option String) (place : Place)
      (spelling : Option Place)
  | inclusion (source target : String) (place : Option Place)
  | callsite (key owner : String) (staticTarget : Option String) (place : Place)
      (spelling : Option Place)
  | callTarget (callsiteKey target : String) (place : Place)
  | argumentBinding (summary callsiteKey : String) (index : Nat) (storage : Storage)
  | resultBinding (summary callsiteKey location definition : String)
  deriving DecidableEq, Repr

def EdgeEmission.content : EdgeEmission → Content
  | related relation source target _ span =>
      .edge relation.name source.text target.text (some span.place)
  | contains container key => .edge "contains" container.text key.text none
  | generatedByMacro owner frame _ span =>
      .edge "generated_by_macro" owner.text frame.text (some span.place)

def OccurrenceEmission.content : OccurrenceEmission → Content
  | related kind target source _ span =>
      .occurrence kind.name target.text (some source.text) span.place none
  | declared key isDefinition _ _ enclosing span =>
      .occurrence (declarationKind isDefinition) key.text (enclosing.map SymbolKey.text)
        span.place none
  | macroDefined key span => .occurrence "definition" key.text none span.place none

def TargetEmission.content : TargetEmission → Content
  | resolved site target span | dataFlow site target span =>
      .callTarget site.key target.text span.place

/-- The fact, with spans by their lines. -/
def Emission.content : Emission → Content
  | edge fact => fact.content
  | occurrence fact => fact.content
  | expansion key _ _ spelling span =>
      .occurrence "macro_expansion" key.text none span.place (some spelling.place)
  | inclusion includer included _ _ _ span =>
      .inclusion includer.text included.text (span.map Span.place)
  | callsite site staticTarget spelling span =>
      .callsite site.key site.owner.text (staticTarget.map SymbolKey.text) span.place
        (spelling.map Span.place)
  | target fact => fact.content
  | argumentBinding site index storage =>
      .argumentBinding (summaryKey site.owner.text) site.key index storage
  | resultBinding site location definition =>
      .resultBinding (summaryKey site.owner.text) site.key location definition

/-! ## Visits -/

/-- The arguments of `emitRelationship`, with the keys of the two symbols. -/
structure Relationship where
  source : SymbolKey
  target : SymbolKey
  relation : Relation
  range : Range

/-- A declaration that `emitSymbol` meets.  `owner` is the declaration around it, if there is
one, with its key, if it has one. -/
structure Declaration where
  key : SymbolKey
  isDefinition : Bool
  location : Location
  range : Range
  owner : Option (Option SymbolKey)

structure MacroDefinition where
  key : SymbolKey
  range : Range

structure MacroExpansion where
  key : SymbolKey
  definition : Location
  range : Range

/-- An `#include` whose file was found, with that file's canonical path. -/
structure Inclusion where
  hash : Location
  filenameRange : Range
  target : String

/-- A call that `emitResolvedCallsite` sees, with its targets in the index and the frames of
its macro stack. -/
structure Call where
  site : CallSite
  staticTarget : Option SymbolKey
  resolvedTarget : Option SymbolKey
  frames : List SymbolKey

/-- A call through a pointer, with the targets that the data flow found. -/
structure IndirectCall where
  site : CallSite
  targets : List SymbolKey

/-- `SummaryCallRecord` -/
structure SummaryCall where
  site : CallSite
  arguments : List Storage
  result : Option (String × String)

inductive Visit where
  | relationship (visited : Relationship)
  | declaration (visited : Declaration)
  | macroDefinition (visited : MacroDefinition)
  | macroExpansion (visited : MacroExpansion)
  | inclusion (visited : Inclusion)
  | call (visited : Call)
  | indirectCall (visited : IndirectCall)
  | summaryCall (visited : SummaryCall)

section Emit

variable (sources : SourceManager)

/-- The path of a position, when it is in the project. -/
def SourceManager.projectPath (position : Position) : Option String :=
  (sources.path position.file).filter fun path => (sources.relativePath path).isSome

def Relationship.span (r : Relationship) : Option Span := sources.span r.range false

/-- `emitRelationship` -/
def emitRelationship (r : Relationship) : List Emission :=
  (r.span sources).toList.flatMap fun span =>
    let evidence := r.range.first.expansion.offset
    (r.relation.edges.map fun relation =>
      .edge (.related relation r.source r.target evidence span)) ++
      [.occurrence (.related r.relation.occurrenceKind r.target r.source evidence span)]

namespace Declaration

variable (d : Declaration)

def span : Option Span := (sources.span d.range true).orElse fun _ => sources.span d.range false

/-- The path of the declaration in the project. -/
def path : Option String := sources.projectPath d.location.spelling

/-- The path in the sort key. -/
def occurrencePath (path : String) : String :=
  (sources.path d.location.expansion.file).getD path

def enclosing : Option SymbolKey := d.owner.join

/-- The symbol or file that contains the declaration. -/
def container (path : String) : Option SymbolKey :=
  (d.owner.getD (some (fileKey sources path))).filter (· ≠ d.key)

end Declaration

/-- `emitSymbol`, less the symbol and file facts. -/
def emitSymbol (d : Declaration) : List Emission :=
  (d.span sources).toList.flatMap fun span => (d.path sources).toList.flatMap fun path =>
    .occurrence (.declared d.key d.isDefinition (d.occurrencePath sources path)
        d.location.expansion.offset d.enclosing span) ::
      (d.container sources path).toList.map fun container => .edge (.contains container d.key)

def MacroDefinition.span (m : MacroDefinition) : Option Span :=
  (sources.projectPath m.range.first.spelling).bind fun _ => sources.span m.range true

/-- `MacroDefined` -/
def macroDefined (m : MacroDefinition) : List Emission :=
  (m.span sources).toList.map fun span => .occurrence (.macroDefined m.key span)

namespace MacroExpansion

variable (m : MacroExpansion)

def usePath : Option String :=
  (sources.projectPath m.definition.spelling).bind fun _ =>
    sources.projectPath m.range.first.expansion

/-- The spelled and the expanded span. -/
def spans : Option (Span × Span) :=
  (sources.span m.range true).bind fun spelling =>
    (sources.span m.range false).map fun span => (spelling, span)

end MacroExpansion

/-- `MacroExpands` -/
def macroExpands (m : MacroExpansion) : List Emission :=
  (m.usePath sources).toList.flatMap fun usePath => (m.spans sources).toList.map fun spans =>
    .expansion m.key usePath m.range.first.expansion.offset spans.1 spans.2

/-- The paths of an inclusion between files of the project. -/
def Inclusion.paths (i : Inclusion) : Option (String × String) :=
  (sources.projectPath i.hash.spelling).bind fun source =>
    if (sources.relativePath i.target).isSome then some (source, i.target) else none

/-- `InclusionDirective` -/
def inclusionDirective (i : Inclusion) : List Emission :=
  (i.paths sources).toList.map fun paths =>
    .inclusion (fileKey sources paths.1) (fileKey sources paths.2) paths.1 paths.2
      i.hash.expansion.offset (sources.span i.filenameRange true)

def CallSite.span (site : CallSite) : Option Span := sources.span site.range false

/-- `emitResolvedCallsite` -/
def emitResolvedCallsite (c : Call) : List Emission :=
  (c.site.span sources).toList.flatMap fun span =>
    .callsite c.site c.staticTarget (sources.span c.site.range true) span ::
      (c.resolvedTarget.toList.map fun target => .target (.resolved c.site target span)) ++
        c.frames.map fun frame =>
          .edge (.generatedByMacro c.site.owner frame c.site.range.first.expansion.offset span)

/-- The indirect targets of `emitDataFlow` -/
def emitIndirectTargets (c : IndirectCall) : List Emission :=
  (c.site.span sources).toList.flatMap fun span =>
    c.targets.map fun target => .target (.dataFlow c.site target span)

/-- The call bindings of `emitDataFlow` -/
def emitCallBindings (c : SummaryCall) : List Emission :=
  (c.arguments.zipIdx.map fun argument => .argumentBinding c.site argument.2 argument.1) ++
    c.result.toList.map fun result => .resultBinding c.site result.1 result.2

def emit : Visit → List Emission
  | .relationship r => emitRelationship sources r
  | .declaration d => emitSymbol sources d
  | .macroDefinition m => macroDefined sources m
  | .macroExpansion m => macroExpands sources m
  | .inclusion i => inclusionDirective sources i
  | .call c => emitResolvedCallsite sources c
  | .indirectCall c => emitIndirectTargets sources c
  | .summaryCall c => emitCallBindings c

/-- What the visits of a translation unit hand to the sink. -/
def emissions (unit : List Visit) : List Emission := unit.flatMap (emit sources)

end Emit

end CppContextEngine.Analyzer.SinkKeys
