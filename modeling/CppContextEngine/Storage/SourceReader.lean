import CppContextEngine.Foundation.LineEnds
import CppContextEngine.Foundation.Utf8
import CppContextEngine.Models.Symbols

/-!
# Source excerpts

The reader decodes a file, translates its newlines and splits it with
`str.splitlines`, which knows eight more ends of a line than the compiler whose
line numbers the span holds.  A file without those characters is split alike;
in any other file some line differs.
-/

namespace CppContextEngine.Storage

open CppContextEngine.Foundation CppContextEngine.Models

/-- The ends of a line that `str.splitlines` knows beside the newlines. -/
def otherBoundaries : List Char :=
  ['\x0b', '\x0c', '\x1c', '\x1d', '\x1e', '\u0085', '\u2028', '\u2029']

def isLineBoundary (c : Char) : Bool := isNewline c || c ∈ otherBoundaries

def splitlines (text : List Char) : List (List Char) := splitEnds '\r' '\n' isLineBoundary text

structure SourceReadError where
  message : String
  deriving DecidableEq

structure FilesystemSourceReader where
  maxFileBytes : Int := 8 * 1024 * 1024
  /-- What `_resolve_allowed`, `stat` and `open` make of a path: the bytes of the file, or the
  error for a path that is outside the roots, unknown to the build or unreadable. -/
  file : String → Except SourceReadError Bytes
  /-- The text of bytes that are no UTF-8, with `errors="replace"`. -/
  replaceErrors : Bytes → String

namespace FilesystemSourceReader

variable (reader : FilesystemSourceReader)

def readText (data : Bytes) : List Char :=
  universalNewlines '\r' '\n' ((ofUtf8? data).getD (reader.replaceErrors data)).toList

def readSymbol (symbol : CodeSymbol) : Except SourceReadError String := do
  let requested := symbol.text.span.path
  let data ← reader.file requested
  if data.length > reader.maxFileBytes then
    throw ⟨"source file exceeds " ++ toString reader.maxFileBytes ++ " bytes: " ++ requested⟩
  let lines := splitlines (reader.readText data)
  let start := symbol.text.span.startLine - 1
  let stop := symbol.text.span.endLine
  if start ≥ lines.length then
    throw ⟨"source span starts beyond end of file: " ++ requested⟩
  return String.ofList (['\n'].intercalate ((lines.take stop).drop start))

end FilesystemSourceReader

/-- The lines of a file as the analyzer counts them. -/
def compilerLines (data : Bytes) : List Bytes := splitEnds 13 10 isByteEnd data

/-- The lines that a span covers, joined by newlines. -/
def compilerExcerpt (data : Bytes) (span : SourceSpan) : Bytes :=
  [10].intercalate (((compilerLines data).take span.endLine).drop (span.startLine - 1))

/-- Every span in the file reads as the compiler's lines, and the others fail. -/
def FilesystemSourceReader.ReadsCompilerLines (reader : FilesystemSourceReader) (path : String)
    (data : Bytes) : Prop :=
  ∀ symbol : CodeSymbol, symbol.text.span.path = path →
    (symbol.text.span.endLine ≤ (compilerLines data).length →
      (reader.readSymbol symbol).map utf8 = .ok (compilerExcerpt data symbol.text.span)) ∧
    ((∃ error, reader.readSymbol symbol = .error error) ↔
      (compilerLines data).length < symbol.text.span.startLine)

/-! ## The two splitters -/

theorem compilerLines_utf8 (text : String) :
    compilerLines (utf8 text) = (splitEnds '\r' '\n' isNewline text.toList).map encodeChars := by
  rw [compilerLines, utf8_eq_encodeChars, splitEnds_encodeChars]

theorem isLineBoundary_of_isNewline (c : Char) (h : isNewline c = true) :
    isLineBoundary c = true := by
  simp [isLineBoundary, h]

theorem splitlines_readText (reader : FilesystemSourceReader) (text : String) :
    splitlines (reader.readText (utf8 text)) = splitlines text.toList := by
  unfold splitlines FilesystemSourceReader.readText
  rw [ofUtf8?_utf8, Option.getD_some]
  exact splitEnds_universalNewlines (by decide) (by decide) (by decide) _

theorem splitlines_eq {text : List Char} (h : ∀ c ∈ text, c ∉ otherBoundaries) :
    splitlines text = splitEnds '\r' '\n' isNewline text := by
  apply splitEnds_congr
  intro c hc
  simp [isLineBoundary, h c hc]

theorem isNewline_of_mem : ∀ c ∈ otherBoundaries, isNewline c = false := by
  have hall : otherBoundaries.all (fun c => !isNewline c) = true := by decide
  simpa using hall

/-- Another end of a line is where some line of the two splitters differs. -/
theorem splitlines_ne {text : List Char} (h : ∃ c ∈ text, c ∈ otherBoundaries) :
    ∃ (i : Nat) (line line' : List Char),
      (splitEnds '\r' '\n' isNewline text)[i]? = some line ∧
        (splitlines text)[i]? = some line' ∧ line ≠ line' := by
  obtain ⟨c, hc, hother⟩ := h
  apply exists_line_ne isLineBoundary_of_isNewline (by decide) (by decide)
  exact ⟨c, hc, isNewline_of_mem c hother, by simp [isLineBoundary, hother]⟩

theorem encodeChars_intercalate (lines : List (List Char)) :
    encodeChars (['\n'].intercalate lines) = [10].intercalate (lines.map encodeChars) := by
  have hnewline : encodeChars ['\n'] = [10] := by decide
  induction lines with
  | nil => rfl
  | cons line lines ih =>
      cases lines with
      | nil => simp [List.intercalate]
      | cons next lines =>
          simp only [List.intercalate_cons_cons, List.map_cons, encodeChars_append, hnewline] at *
          rw [ih]

theorem encodeChars_injective : Function.Injective encodeChars := by
  intro first second h
  have htext : utf8 (String.ofList first) = utf8 (String.ofList second) := by
    simpa [utf8_eq_encodeChars] using h
  have hdecoded : String.ofList first = String.ofList second := by
    have hsame := congrArg ofUtf8? htext
    rwa [ofUtf8?_utf8, ofUtf8?_utf8, Option.some_inj] at hsame
  simpa using congrArg String.toList hdecoded

/-! ## What a read returns -/

section Reads

variable {reader : FilesystemSourceReader} {path text : String} {symbol : CodeSymbol}

theorem readSymbol_eq (hfile : reader.file path = .ok (utf8 text))
    (hpath : symbol.text.span.path = path) :
    reader.readSymbol symbol =
      if (utf8 text).length > reader.maxFileBytes then
        .error ⟨"source file exceeds " ++ toString reader.maxFileBytes ++ " bytes: " ++ path⟩
      else if (splitlines text.toList).length < symbol.text.span.startLine then
        .error ⟨"source span starts beyond end of file: " ++ path⟩
      else
        .ok (String.ofList (['\n'].intercalate
          (((splitlines text.toList).take symbol.text.span.endLine).drop
            (symbol.text.span.startLine - 1)))) := by
  have hpositive := symbol.text.span.positive.1
  have hstart : symbol.text.span.startLine - 1 ≥ (splitlines text.toList).length ↔
      (splitlines text.toList).length < symbol.text.span.startLine := by
    omega
  simp only [FilesystemSourceReader.readSymbol, hpath, hfile, bind, Except.bind,
    splitlines_readText, hstart]
  split
  · rfl
  · split <;> rfl

theorem utf8_excerpt (lines : List (List Char)) (start stop : Nat) :
    utf8 (String.ofList (['\n'].intercalate ((lines.take stop).drop start))) =
      [10].intercalate (((lines.map encodeChars).take stop).drop start) := by
  rw [utf8_eq_encodeChars, String.toList_ofList, encodeChars_intercalate, List.map_drop,
    List.map_take]

/-- The compiler's lines of a span, decoded. -/
theorem compilerExcerpt_utf8 (text : String) (span : SourceSpan) :
    compilerExcerpt (utf8 text) span = [10].intercalate
      ((((splitEnds '\r' '\n' isNewline text.toList).map encodeChars).take span.endLine).drop
        (span.startLine - 1)) := by
  rw [compilerExcerpt, compilerLines_utf8]

theorem readsCompilerLines_of_plain (hfile : reader.file path = .ok (utf8 text))
    (hsize : (utf8 text).length ≤ reader.maxFileBytes)
    (hplain : ∀ c ∈ text.toList, c ∉ otherBoundaries) :
    reader.ReadsCompilerLines path (utf8 text) := by
  intro symbol hpath
  have hordered := symbol.text.span.ordered
  have hfits : ¬ (utf8 text).length > reader.maxFileBytes := by omega
  rw [readSymbol_eq hfile hpath, if_neg hfits, splitlines_eq hplain, compilerLines_utf8,
    List.length_map]
  constructor
  · intro hexists
    have hwithin : ¬ (splitEnds '\r' '\n' isNewline text.toList).length <
        symbol.text.span.startLine := by
      omega
    rw [if_neg hwithin, Except.map, utf8_excerpt, compilerExcerpt_utf8]
  · split <;> simp [*]

theorem readsCompilerLines_of_empty (hfile : reader.file path = .ok (utf8 "")) :
    reader.ReadsCompilerLines path (utf8 "") := by
  intro symbol hpath
  have hpositive := symbol.text.span.positive
  have hlines : splitlines "".toList = [] := rfl
  rw [readSymbol_eq hfile hpath, compilerLines_utf8, hlines]
  constructor
  · intro hexists
    simp [splitEnds] at hexists
    omega
  · simp only [List.length_nil, hpositive.1, if_true]
    split <;> simp [splitEnds, hpositive.1]

end Reads

/-- A symbol on one line of a file. -/
def symbolOnLine (path : String) (line : Nat) : CodeSymbol where
  text :=
    { id := ⟨"reader", by decide⟩
      qualifiedName := ⟨"reader", by decide⟩
      kind := .function
      span := ⟨path, line + 1, line + 1, 1, 1, by simp, by simp⟩ }

theorem slice_singleton {α : Type} {lines : List α} {line : α} {i : Nat}
    (h : lines[i]? = some line) : (lines.take (i + 1)).drop i = [line] := by
  rw [List.drop_take, Nat.add_sub_cancel_left, List.take_one, List.head?_drop, h, Option.toList_some]

theorem compilerExcerpt_onLine {text : String} {line : List Char} {i : Nat}
    (h : (splitEnds '\r' '\n' isNewline text.toList)[i]? = some line) (path : String) :
    compilerExcerpt (utf8 text) (symbolOnLine path i).text.span = encodeChars line := by
  have hline : ((splitEnds '\r' '\n' isNewline text.toList).map encodeChars)[i]? =
      some (encodeChars line) := by
    simp [h]
  simp only [compilerExcerpt_utf8, symbolOnLine, Nat.add_sub_cancel, slice_singleton hline,
    List.intercalate_singleton]

/-- The excerpts of a file follow the compiler exactly if nothing else ends a line in it. -/
theorem FilesystemSourceReader.readsCompilerLines_iff (reader : FilesystemSourceReader)
    {path text : String} (hfile : reader.file path = .ok (utf8 text)) :
    reader.ReadsCompilerLines path (utf8 text) ↔
      text = "" ∨ (utf8 text).length ≤ reader.maxFileBytes ∧
        ∀ c ∈ text.toList, c ∉ otherBoundaries := by
  constructor
  · intro hreads
    by_cases hempty : text = ""
    · exact .inl hempty
    apply Or.inr
    by_cases hsize : (utf8 text).length ≤ reader.maxFileBytes
    · apply And.intro hsize
      by_contra hother
      push Not at hother
      obtain ⟨i, line, line', hline, hline', hne⟩ := splitlines_ne hother
      obtain ⟨hlt, -⟩ := List.getElem?_eq_some_iff.mp hline
      obtain ⟨hlt', -⟩ := List.getElem?_eq_some_iff.mp hline'
      have hfits : ¬ (utf8 text).length > reader.maxFileBytes := by omega
      have hwithin : ¬ (splitlines text.toList).length < i + 1 := by omega
      have hread := (hreads (symbolOnLine path i) rfl).1
      rw [readSymbol_eq hfile rfl, if_neg hfits, compilerExcerpt_onLine hline,
        compilerLines_utf8, List.length_map] at hread
      simp only [symbolOnLine, if_neg hwithin, Nat.add_sub_cancel, slice_singleton hline',
        List.intercalate_singleton, Except.map, utf8_eq_encodeChars, String.toList_ofList] at hread
      have hsame : encodeChars line' = encodeChars line := by
        simpa using hread (by omega)
      exact hne (encodeChars_injective hsame).symm
    · have hlarge : (utf8 text).length > reader.maxFileBytes := by omega
      have hraises := (hreads (symbolOnLine path 0) rfl).2
      rw [readSymbol_eq hfile rfl, if_pos hlarge, compilerLines_utf8, List.length_map] at hraises
      have hshort := hraises.mp ⟨_, rfl⟩
      have hnil : (splitEnds '\r' '\n' isNewline text.toList).length = 0 := by
        simpa [symbolOnLine] using hshort
      have hchars : text.toList ≠ [] := by simpa using hempty
      exact absurd (List.length_eq_zero_iff.mp hnil) (splitEnds_ne_nil hchars)
  · rintro (rfl | ⟨hsize, hplain⟩)
    · exact readsCompilerLines_of_empty hfile
    · exact readsCompilerLines_of_plain hfile hsize hplain

/-- A reader of the one file `a.cpp`. -/
def readerOf (text : String) : FilesystemSourceReader where
  file path := if path = "a.cpp" then .ok (utf8 text) else .error ⟨"cannot inspect source file"⟩
  replaceErrors _ := ""

theorem readsCompilerLines_plainFile :
    (readerOf "a\r\nb").ReadsCompilerLines "a.cpp" (utf8 "a\r\nb") := by
  have hfile : (readerOf "a\r\nb").file "a.cpp" = .ok (utf8 "a\r\nb") := rfl
  have hsize : (utf8 "a\r\nb").length ≤ (readerOf "a\r\nb").maxFileBytes := by decide +kernel
  have hplain : "a\r\nb".toList.all (· ∉ otherBoundaries) = true := by decide +kernel
  exact ((readerOf "a\r\nb").readsCompilerLines_iff hfile).mpr
    (.inr ⟨hsize, by simpa using hplain⟩)

/-- The line below a form feed reads as the rest of the line with the form feed. -/
theorem readsCompilerLines_formFeed :
    ¬ (readerOf "a\x0cb\nc").ReadsCompilerLines "a.cpp" (utf8 "a\x0cb\nc") := by
  intro hreads
  have hread := (hreads (symbolOnLine "a.cpp" 1) rfl).1
  revert hread
  decide +kernel

end CppContextEngine.Storage
