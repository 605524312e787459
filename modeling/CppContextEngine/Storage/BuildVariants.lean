import Mathlib.Data.List.TakeWhile
import CppContextEngine.Foundation.Fallible
import CppContextEngine.Foundation.FirstPerKey
import CppContextEngine.Storage.SymbolTables

/-!
# Indexed builds

The table of builds that have been indexed, its bounded listing, and the
constructor of a scope from the names of a request.
-/

namespace CppContextEngine.Storage

open CppContextEngine.Foundation CppContextEngine.Models

/-- `text.strip()` -/
def strip (text : String) : String :=
  String.ofList ((text.toList.dropWhile isSpace).reverse.dropWhile isSpace).reverse

theorem strip_ne_empty {text : String} (h : isBlank text = false) : strip text ≠ "" := by
  unfold isBlank at h
  obtain ⟨c, hc, hspace⟩ := List.all_eq_false.mp h
  have hleft : c ∈ text.toList.dropWhile isSpace := by
    rw [← List.takeWhile_append_dropWhile (p := isSpace) (l := text.toList)] at hc
    rcases List.mem_append.mp hc with htake | hdrop
    · exact absurd (List.mem_takeWhile_imp htake) hspace
    · exact hdrop
  have hright : (text.toList.dropWhile isSpace).reverse.dropWhile isSpace ≠ [] := by
    intro hnil
    have hall := List.dropWhile_eq_nil_iff.mp hnil c (List.mem_reverse.mpr hleft)
    exact hspace hall
  intro hempty
  apply hright
  have hlist := congrArg String.toList hempty
  simpa [strip] using hlist

/-- The name of a build that `BuildVariant` has accepted. -/
abbrev BuildName := { name : String // name ≠ "" ∧ (∀ c ∈ name.toList, isSpace c = false) ∧
  name.length ≤ 128 }

/-! ## Scopes -/

/-- What the constructor of `BuildScope` says of names that it refuses. -/
inductive ScopeNamesError where
  | noVariant
  | whitespace
  | tooManyVariants
  | tooLongName
  deriving DecidableEq, Repr

def ScopeNamesError.message : ScopeNamesError → String
  | noVariant => "build scope must contain at least one variant"
  | whitespace => "build scope names must not contain whitespace"
  | tooManyVariants => "build scope must not exceed 16 variants"
  | tooLongName => "build variant names must not exceed 128 characters"

/-- `dict.fromkeys(name.strip() for name in variants if name.strip())` -/
def normalizedNames (names : List String) : List String :=
  firstPerKey id ((names.filter fun name => !isBlank name).map strip)

theorem normalizedNames_nodup (names : List String) : (normalizedNames names).Nodup := by
  have hnodup : ((normalizedNames names).map id).Nodup := nodup_firstPerKey
  simpa using hnodup

theorem ne_empty_of_normalized {names : List String} {name : String}
    (h : name ∈ normalizedNames names) : name ≠ "" := by
  have hmem := (firstPerKey_sublist _ _).subset h
  simp only [List.mem_map, List.mem_filter] at hmem
  obtain ⟨raw, hraw, rfl⟩ := hmem
  exact strip_ne_empty (by simpa using hraw.2)

/-- `BuildScope(variants)` -/
def scopeOfNames (names : List String) : Except ScopeNamesError BuildScope :=
  let normalized := normalizedNames names
  if hempty : normalized = [] then .error .noVariant
  else if hspaces : normalized.any (fun name => name.toList.any isSpace) = true then
    .error .whitespace
  else if hmany : 16 < normalized.length then .error .tooManyVariants
  else if hlong : ∃ name ∈ normalized, 128 < name.length then .error .tooLongName
  else
    .ok
      { variants := normalized
        nonempty := hempty
        distinct := normalizedNames_nodup names
        named := by
          intro name hname
          refine ⟨ne_empty_of_normalized hname, fun c hc => ?_, ?_⟩
          · by_contra hspace
            refine hspaces (List.any_eq_true.mpr ⟨name, hname, List.any_eq_true.mpr ⟨c, hc, ?_⟩⟩)
            simpa using hspace
          · by_contra hlength
            exact hlong ⟨name, hname, by omega⟩
        bounded := by omega }

theorem strip_eq_self {text : String} (h : ∀ c ∈ text.toList, isSpace c = false) :
    strip text = text := by
  have hdrop : ∀ chars : List Char, (∀ c ∈ chars, isSpace c = false) →
      chars.dropWhile isSpace = chars := by
    intro chars hchars
    cases chars with
    | nil => rfl
    | cons c chars => simp [hchars c List.mem_cons_self]
  unfold strip
  rw [hdrop _ h, hdrop, List.reverse_reverse, String.ofList_toList]
  intro c hc
  exact h c (List.mem_reverse.mp hc)

theorem scopeOfNames_variants {names : List String} {scope : BuildScope}
    (h : scopeOfNames names = .ok scope) : scope.variants = normalizedNames names := by
  simp only [scopeOfNames] at h
  split_ifs at h
  cases h
  rfl

/-- The scope of one build of a scope holds that build alone. -/
theorem scopeOfNames_single {scope single : BuildScope} {name : String}
    (hname : name ∈ scope.variants) (h : scopeOfNames [name] = .ok single) :
    single.variants = [name] := by
  obtain ⟨hne, hspaces, -⟩ := scope.named name hname
  have hblank : isBlank name = false := by
    unfold isBlank
    rw [List.all_eq_false]
    obtain ⟨c, hc⟩ := List.exists_mem_of_ne_nil name.toList (by simpa using hne)
    exact ⟨c, hc, by simp [hspaces c hc]⟩
  rw [scopeOfNames_variants h]
  simp [normalizedNames, hblank, strip_eq_self hspaces, firstPerKey]

/-! ## The listing -/

/-- A row of `build_variants`, its JSON decoded. -/
structure BuildVariantRow where
  projectId : Nat
  name : BuildName
  generatedSourceRoots : List String

/-- A store with its table of builds. -/
structure BuildStore extends SymbolStore where
  buildVariants : List BuildVariantRow
  /-- `PRIMARY KEY(project_id, name)` -/
  buildVariantKeys : (buildVariants.map fun row => (row.projectId, row.name)).Nodup

/-- A build as its constructor accepts it. -/
structure BuildVariant where
  name : BuildName
  generatedSourceRoots : List String

section Listing

-- A path that resolves to an existing directory other than a file system's root.
variable (boundedDirectory : String → Bool)

/-- `BuildVariant(row["name"], …)`: the roots of the row have to exist still. -/
def BuildVariantRow.variant (row : BuildVariantRow) : Except StoreError BuildVariant :=
  if row.generatedSourceRoots.all boundedDirectory then
    .ok ⟨row.name, row.generatedSourceRoots⟩
  else .error .valueError

namespace BuildStore

variable (store : BuildStore)

/-- The rows of a project, `ORDER BY name`. -/
def variantRows (projectId : Nat) : List BuildVariantRow :=
  sortBy (fun row => row.name.val)
    (store.buildVariants.filter fun row => row.projectId = projectId)

/-- `build_variants` -/
def listBuildVariants (root : String) (limit : Option Nat) :
    Except StoreError (List BuildVariant) :=
  match store.projectIdOf (some root) with
  | .error .keyError => .ok []
  | .error error => .error error
  | .ok projectId =>
      if limit.all fun limit => 1 ≤ limit ∧ limit ≤ 10000 then
        let rows := store.variantRows projectId
        (limit.elim rows rows.take).mapM (BuildVariantRow.variant boundedDirectory)
      else .error .valueError

end BuildStore

end Listing

end CppContextEngine.Storage
