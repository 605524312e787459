import CppContextEngine.Foundation.CodePoints
import CppContextEngine.Foundation.Fallible
import CppContextEngine.Foundation.FirstPerKey
import CppContextEngine.Foundation.Separators

/-!
# Compilation databases

The loader reads the entries of `compile_commands.json`, names each by a digest
of its parts and keeps the first entry of each name.  The file system, the
canonical generated roots and the JSON reader are what the host provides; the
digest is SHA-256.
-/

namespace CppContextEngine.Ingestion

open CppContextEngine.Foundation

/-! ## What the host provides -/

/-- An absolute path that the operating system accepts. -/
structure ResolvedPath where
  text : CodePoints
  bytes : Bytes
  encoded : text.encode = some bytes
  absolute : bytes.head? = some 47
  noNul : 0 ∉ bytes
  deriving DecidableEq

inductive DatabaseError where
  /-- `CompilationDatabaseError` -/
  | database (message : CodePoints)
  /-- A text with a surrogate that stands for no byte. -/
  | unicodeEncode
  /-- What `resolve` raises. -/
  | resolve
  deriving DecidableEq

/-- What `json.loads` returns. -/
inductive RawJson where
  | null
  /-- A number or a truth value. -/
  | other
  | text (value : CodePoints)
  | array (items : List RawJson)
  | object (fields : List (CodePoints × RawJson))

/-- SHA-256 and the first 32 digits of a digest, neither of which loses anything. -/
structure Digests where
  hexdigest : Bytes → String
  shorten : String → String
  hexdigest_injective : Function.Injective hexdigest
  shorten_injective : Function.Injective shorten

structure Host where
  digests : Digests
  /-- `compile_commands.json`, decoded. -/
  readPayload : ResolvedPath → Except DatabaseError RawJson
  parent : ResolvedPath → ResolvedPath
  /-- A path, taken from a base unless it is absolute, without its links. -/
  absolute : CodePoints → ResolvedPath → Except DatabaseError ResolvedPath
  isDir : ResolvedPath → Bool
  isFile : ResolvedPath → Bool
  /-- `boundary is None or boundary.contains(path)` -/
  contains : ResolvedPath → Bool

/-! ## Shell words -/

def shellEscape : CodePoint := .scalar '\\'

def isShellSpace (c : CodePoint) : Bool :=
  c ∈ [.scalar ' ', .scalar '\t', .scalar '\r', .scalar '\n']

def isShellQuote (c : CodePoint) : Bool := c ∈ [.scalar '\'', .scalar '"']

inductive ShellState where
  | space
  | word
  | quoted (quote : CodePoint)
  /-- Behind a backslash, in quotes or not. -/
  | escaped (within : Option CodePoint)

/-- The tokens of `shlex.split` from a state, a token begun and whether it had quotes. -/
def shellTokens (state : ShellState) (token : CodePoints) (hadQuotes : Bool) :
    CodePoints → Except String (List CodePoints)
  | [] =>
      match state with
      | .space => .ok []
      | .word => .ok (if token = [] ∧ hadQuotes = false then [] else [token])
      | .quoted _ => .error "No closing quotation"
      | .escaped _ => .error "No escaped character"
  | c :: rest =>
      match state with
      | .space =>
          if isShellSpace c then shellTokens .space [] false rest
          else if c = shellEscape then shellTokens (.escaped none) [] false rest
          else if isShellQuote c then shellTokens (.quoted c) [] false rest
          else shellTokens .word [c] false rest
      | .word =>
          if isShellSpace c then
            if token = [] ∧ hadQuotes = false then shellTokens .space [] false rest
            else return token :: (← shellTokens .space [] false rest)
          else if isShellQuote c then shellTokens (.quoted c) token hadQuotes rest
          else if c = shellEscape then shellTokens (.escaped none) token hadQuotes rest
          else shellTokens .word (token ++ [c]) hadQuotes rest
      | .quoted quote =>
          if c = quote then shellTokens .word token true rest
          else if c = shellEscape ∧ quote = .scalar '"' then
            shellTokens (.escaped (some quote)) token true rest
          else shellTokens (.quoted quote) (token ++ [c]) true rest
      | .escaped none => shellTokens .word (token ++ [c]) hadQuotes rest
      | .escaped (some quote) =>
          -- within quotes a backslash stays before all but itself and the quote
          if c ≠ shellEscape ∧ c ≠ quote then
            shellTokens (.quoted quote) (token ++ [shellEscape, c]) hadQuotes rest
          else shellTokens (.quoted quote) (token ++ [c]) hadQuotes rest

def shellSplit (command : CodePoints) : Except String (List CodePoints) :=
  shellTokens .space [] false command

/-! ## Entries -/

structure BuildConfiguration where
  id : String
  sourcePath : ResolvedPath
  directory : ResolvedPath
  arguments : List CodePoints
  commandHash : String
  output : Option ResolvedPath := none
  buildVariant : CodePoints
  generatedSourceRoots : List ResolvedPath := []
  deriving DecidableEq

/-- The digest of parts that are each ended by a zero byte. -/
def digest (digests : Digests) (parts : List CodePoints) : Except DatabaseError String :=
  match parts.mapM CodePoints.encode with
  | some encoded => .ok (digests.hexdigest (terminated 0 encoded))
  | none => .error .unicodeEncode

/-- The value that `json.loads` keeps for a key. -/
def RawJson.field? (fields : List (CodePoints × RawJson)) (key : String) : Option RawJson :=
  (fields.reverse.find? fun field => field.1 = .ofString key).map Prod.snd

def RawJson.text? : RawJson → Option CodePoints
  | .text value => some value
  | _ => none

/-- A field that must hold more than white space. -/
def requiredText (message : String → DatabaseError) (fields : List (CodePoints × RawJson))
    (key : String) (problem : String) : Except DatabaseError CodePoints :=
  match RawJson.field? fields key with
  | some (.text value) => if value.isBlank then .error (message problem) else .ok value
  | _ => .error (message problem)

def entryArguments (message : String → DatabaseError) (fields : List (CodePoints × RawJson)) :
    Except DatabaseError (List CodePoints) := do
  match RawJson.field? fields "arguments", RawJson.field? fields "command" with
  | some (.array items), none =>
      match items.mapM RawJson.text? with
      | some arguments => return arguments
      | none => throw (message " 'arguments' must be an array of strings")
  | some _, none => throw (message " 'arguments' must be an array of strings")
  | none, some _ =>
      let command ← requiredText message fields "command" " 'command' must be a non-empty string"
      match shellSplit command with
      | .ok arguments => return arguments
      | .error error => throw (message (" has an invalid shell command: " ++ error))
  | _, _ => throw (message " must contain exactly one of 'arguments' or 'command'")

def entryOutput (message : String → DatabaseError) (fields : List (CodePoints × RawJson))
    (absolute : CodePoints → Except DatabaseError ResolvedPath) :
    Except DatabaseError (Option ResolvedPath) :=
  match RawJson.field? fields "output" with
  | none | some .null | some (.text []) => return none
  | some (.text outputRaw) => some <$> absolute outputRaw
  | some _ => throw (message " 'output' must be a string when present")

/-- The text that stands before the generated roots. -/
def generatedRootsTag : String := "generated-source-roots-v1"

/-- `str(output) if output else ""` -/
def outputText : Option ResolvedPath → CodePoints
  | some path => path.text
  | none => []

def commandIdentity (directory sourcePath : ResolvedPath) (arguments : List CodePoints)
    (output : Option ResolvedPath) (generatedSourceRoots : List ResolvedPath) :
    List CodePoints :=
  [directory.text, sourcePath.text] ++ arguments ++ [outputText output] ++
    if generatedSourceRoots = [] then []
    else .ofString generatedRootsTag :: generatedSourceRoots.map (·.text)

/-- The configuration of parts that have been checked. -/
def identify (digests : Digests) (buildVariant : CodePoints) (directory sourcePath : ResolvedPath)
    (arguments : List CodePoints) (output : Option ResolvedPath)
    (generatedSourceRoots : List ResolvedPath) : Except DatabaseError BuildConfiguration := do
  let commandHash ← digest digests
    (commandIdentity directory sourcePath arguments output generatedSourceRoots)
  let short ← digest digests [buildVariant, .ofString commandHash]
  return {
    id := "build_" ++ digests.shorten short
    sourcePath := sourcePath
    directory := directory
    arguments := arguments
    commandHash := commandHash
    output := output
    buildVariant := buildVariant
    generatedSourceRoots := generatedSourceRoots }

section Loading

variable (host : Host) (path : ResolvedPath) (buildVariant : CodePoints)
  (generatedSourceRoots : List ResolvedPath)

def parseEntry (position : Nat) (raw : RawJson) : Except DatabaseError BuildConfiguration := do
  let entry : CodePoints := path.text ++ .ofString (": entry " ++ toString position)
  let message (problem : String) : DatabaseError := .database (entry ++ .ofString problem)
  let .object fields := raw | throw (message " must be an object")
  let directoryRaw ← requiredText message fields "directory" " has no non-empty 'directory'"
  let fileRaw ← requiredText message fields "file" " has no non-empty 'file'"
  let directory ← host.absolute directoryRaw (host.parent path)
  throwIf (host.isDir directory = false)
    (.database (entry ++ .ofString " working directory does not exist: " ++ directory.text))
  let sourcePath ← host.absolute fileRaw directory
  throwIf (host.isFile sourcePath = false)
    (.database (entry ++ .ofString " source file does not exist: " ++ sourcePath.text))
  throwIf (host.contains sourcePath = false)
    (message " source file is outside the authorized source roots")
  let arguments ← entryArguments message fields
  throwIf (arguments.head?.all CodePoints.isBlank) (message " compiler command is empty")
  let output ← entryOutput message fields fun outputRaw => host.absolute outputRaw directory
  identify host.digests buildVariant directory sourcePath arguments output generatedSourceRoots

/-- `CompilationDatabase.load`, for roots that are canonical. -/
def load : Except DatabaseError (List BuildConfiguration) := do
  let payload ← host.readPayload path
  let .array items := payload |
    throw (.database (path.text ++ .ofString ": top-level JSON value must be an array"))
  throwIf (items.isEmpty = true)
    (.database (path.text ++ .ofString ": compilation database is empty"))
  let entries ← items.zipIdx.mapM fun (raw, position) =>
    parseEntry host path buildVariant generatedSourceRoots position raw
  -- `seen` and `configurations`
  return (entries.foldl (keepFirst BuildConfiguration.id) ([], [])).2

end Loading

/-- The identity of one distinct compiler invocation. -/
def translationUnitId (digests : Digests) (configuration : BuildConfiguration) :
    Except DatabaseError String := do
  let short ← digest digests [configuration.buildVariant, .ofString configuration.id]
  return "tu_" ++ digests.shorten short

end CppContextEngine.Ingestion
