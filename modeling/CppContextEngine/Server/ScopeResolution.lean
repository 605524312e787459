import CppContextEngine.Storage.BuildVariants

/-!
# Scopes of a request

A request names builds, and the service answers it over those builds alone.  It
accepts names that the operator has enabled and that have been indexed.
-/

namespace CppContextEngine.Server

open CppContextEngine.Foundation CppContextEngine.Models CppContextEngine.Storage

def maxBuildVariants : Nat := 16

/-- The `ValueError`s of `resolve_scope`; a store may raise something else. -/
inductive ScopeError where
  | names (error : ScopeNamesError)
  | notEnabled (denied : List String)
  | notIndexed (missing : List String)
  | store (error : StoreError)
  deriving DecidableEq, Repr

def ScopeError.IsValueError : ScopeError → Prop
  | .store error => error = .valueError
  | _ => True

/-- What the service is configured with. -/
structure ScopeService where
  store : BuildStore
  projectRoot : String
  allowedScope : BuildScope
  /-- The directories that a build's generated roots may be. -/
  boundedDirectory : String → Bool

namespace ScopeService

variable (service : ScopeService)

/-- The scope that a request names, or the operator's. -/
def wantedScope : Option (List String) → Except ScopeError BuildScope
  | none => .ok service.allowedScope
  | some names => (scopeOfNames names).mapError .names

/-- `sorted(set(scope.variants) - names)` -/
def namesOutside (scope : BuildScope) (names : List String) : List String :=
  sortBy id (scope.variants.filter fun name => name ∉ names)

/-- `resolve_scope` -/
def resolveScope (requested : Option (List String)) : Except ScopeError BuildScope := do
  let scope ← service.wantedScope requested
  let denied := namesOutside scope service.allowedScope.variants
  throwIf (denied ≠ []) (ScopeError.notEnabled denied)
  let variants ← (service.store.listBuildVariants service.boundedDirectory service.projectRoot
    (some maxBuildVariants)).mapError .store
  let missing := namesOutside scope (variants.map fun variant => variant.name.val)
  throwIf (missing ≠ []) (ScopeError.notIndexed missing)
  return scope

/-! ## What a request may ask for -/

/-- The store has a row of the build. -/
def Indexed (name : String) : Prop :=
  ∃ projectId, service.store.projectIdOf (some service.projectRoot) = .ok projectId ∧
    ∃ row ∈ service.store.buildVariants, row.projectId = projectId ∧ row.name.val = name

/-- Every build of the scope is enabled and has been indexed. -/
def Authorised (scope : BuildScope) : Prop :=
  ∀ name ∈ scope.variants, name ∈ service.allowedScope.variants ∧ service.Indexed name

/-- The rows that the listing is bounded to. -/
def listedRows : List BuildVariantRow :=
  match service.store.projectIdOf (some service.projectRoot) with
  | .ok projectId => (service.store.variantRows projectId).take maxBuildVariants
  | .error _ => []

/-- The listing can be read, and it holds every build of the scope. -/
def Listed (scope : BuildScope) : Prop :=
  (∀ row ∈ service.listedRows, ∀ root ∈ row.generatedSourceRoots,
      service.boundedDirectory root = true) ∧
    ∀ name ∈ scope.variants, ∃ row ∈ service.listedRows, row.name.val = name

/-- Exactly the authorised scopes are returned, and every other request is a `ValueError`. -/
structure ResolvesExactly (requested : Option (List String)) : Prop where
  returned : ∀ scope, service.resolveScope requested = .ok scope ↔
    service.wantedScope requested = .ok scope ∧ service.Authorised scope
  raised : ∀ error, service.resolveScope requested = .error error → error.IsValueError
  enabled : ∀ scope, service.resolveScope requested = .ok scope →
    ∀ name ∈ scope.variants, name ∈ service.allowedScope.variants

theorem namesOutside_eq_nil {scope : BuildScope} {names : List String} :
    namesOutside scope names = [] ↔ ∀ name ∈ scope.variants, name ∈ names := by
  rw [← List.length_eq_zero_iff, namesOutside, length_sortBy, List.length_eq_zero_iff]
  simp [List.filter_eq_nil_iff]

theorem indexed_of_listed {row : BuildVariantRow} (hrow : row ∈ service.listedRows) :
    service.Indexed row.name.val := by
  unfold listedRows at hrow
  cases hproject : service.store.projectIdOf (some service.projectRoot) with
  | error error => simp [hproject] at hrow
  | ok projectId =>
      simp only [hproject] at hrow
      have hmem := List.mem_of_mem_take hrow
      simp only [BuildStore.variantRows, mem_sortBy, List.mem_filter, decide_eq_true_eq] at hmem
      exact ⟨projectId, hproject, row, hmem.1, hmem.2, rfl⟩

theorem variant_eq_ok {row : BuildVariantRow} {variant : BuildVariant} :
    row.variant service.boundedDirectory = .ok variant ↔
      (∀ root ∈ row.generatedSourceRoots, service.boundedDirectory root = true) ∧
        variant = ⟨row.name, row.generatedSourceRoots⟩ := by
  unfold BuildVariantRow.variant
  split
  · rename_i h
    simp only [List.all_eq_true] at h
    rw [Except.ok.injEq, and_iff_right h]
    exact eq_comm
  · rename_i h
    simp only [List.all_eq_true] at h
    simp [h]

/-- The listing is that of the bounded rows. -/
theorem listBuildVariants_eq :
    service.store.listBuildVariants service.boundedDirectory service.projectRoot
        (some maxBuildVariants) =
      service.listedRows.mapM (BuildVariantRow.variant service.boundedDirectory) := by
  unfold BuildStore.listBuildVariants listedRows SymbolStore.projectIdOf
  simp only [Option.some_or]
  cases service.store.projects.find? fun row => row.root = service.projectRoot with
  | none => rfl
  | some row => simp [maxBuildVariants]

theorem mapM_variant_error {rows : List BuildVariantRow} {error : StoreError}
    (h : rows.mapM (BuildVariantRow.variant service.boundedDirectory) = .error error) :
    error = .valueError := by
  induction rows with
  | nil => cases h
  | cons row rows ih =>
      rw [List.mapM_cons] at h
      cases hrow : row.variant service.boundedDirectory with
      | error other =>
          rw [hrow] at h
          cases h
          unfold BuildVariantRow.variant at hrow
          split at hrow <;> cases hrow
          rfl
      | ok variant =>
          rw [hrow] at h
          cases hrows : rows.mapM (BuildVariantRow.variant service.boundedDirectory) with
          | error other =>
              apply ih
              rw [hrows] at h
              cases h
              exact hrows
          | ok variants =>
              rw [hrows] at h
              cases h

/-- The names of the listing, if it can be read. -/
theorem names_of_listing {variants : List BuildVariant}
    (h : service.listedRows.mapM (BuildVariantRow.variant service.boundedDirectory) =
      .ok variants) :
    (∀ row ∈ service.listedRows, ∀ root ∈ row.generatedSourceRoots,
        service.boundedDirectory root = true) ∧
      variants.map (fun variant => variant.name.val) =
        service.listedRows.map fun row => row.name.val := by
  have hrows := mapM_ok_iff.mp h
  clear h
  generalize service.listedRows = rows at hrows
  induction hrows with
  | nil => simp
  | cons hrow hrest ih =>
      obtain ⟨hroots, rfl⟩ := service.variant_eq_ok.mp hrow
      refine ⟨?_, by simp [ih.2]⟩
      intro other hother
      rcases List.mem_cons.mp hother with rfl | hother
      · exact hroots
      · exact ih.1 other hother

theorem exists_listing (h : ∀ row ∈ service.listedRows, ∀ root ∈ row.generatedSourceRoots,
    service.boundedDirectory root = true) :
    ∃ variants, service.listedRows.mapM (BuildVariantRow.variant service.boundedDirectory) =
      .ok variants := by
  refine ⟨service.listedRows.map fun row => ⟨row.name, row.generatedSourceRoots⟩, ?_⟩
  rw [mapM_ok_iff, List.forall₂_map_right_iff, List.forall₂_same]
  intro row hrow
  exact service.variant_eq_ok.mpr ⟨h row hrow, rfl⟩

/-- A scope is returned when it is enabled and the listing holds it. -/
theorem resolveScope_eq_ok {requested : Option (List String)} {scope : BuildScope} :
    service.resolveScope requested = .ok scope ↔
      service.wantedScope requested = .ok scope ∧
        (∀ name ∈ scope.variants, name ∈ service.allowedScope.variants) ∧
          service.Listed scope := by
  unfold resolveScope
  simp only [bind_eq_ok, throwIf_eq_ok, not_not, namesOutside_eq_nil, listBuildVariants_eq]
  constructor
  · rintro ⟨wanted, hwanted, -, hallowed, variants, hvariants, -, hlisted, hscope⟩
    cases hscope
    have hmapM : service.listedRows.mapM (BuildVariantRow.variant service.boundedDirectory) =
        .ok variants := by
      cases hrows : service.listedRows.mapM
          (BuildVariantRow.variant service.boundedDirectory) with
      | error error =>
          rw [hrows] at hvariants
          cases hvariants
      | ok rows =>
          rw [hrows] at hvariants
          cases hvariants
          rfl
    obtain ⟨hroots, hnames⟩ := service.names_of_listing hmapM
    refine ⟨hwanted, hallowed, hroots, fun name hname => ?_⟩
    have hmem := hlisted name hname
    rw [hnames] at hmem
    simpa using hmem
  · rintro ⟨hwanted, hallowed, hroots, hlisted⟩
    obtain ⟨variants, hvariants⟩ := service.exists_listing hroots
    have hnames := (service.names_of_listing hvariants).2
    refine ⟨scope, hwanted, (), hallowed, variants, by rw [hvariants]; rfl, (), ?_, rfl⟩
    intro name hname
    rw [hnames]
    simpa using hlisted name hname

theorem isValueError_of_error {requested : Option (List String)} {error : ScopeError}
    (h : service.resolveScope requested = .error error) : error.IsValueError := by
  unfold resolveScope at h
  rw [service.listBuildVariants_eq] at h
  cases hwanted : service.wantedScope requested with
  | error other =>
      rw [hwanted] at h
      cases h
      unfold wantedScope at hwanted
      split at hwanted
      · cases hwanted
      · cases hscope : scopeOfNames _ with
        | error names =>
            rw [hscope] at hwanted
            cases hwanted
            trivial
        | ok scope =>
            rw [hscope] at hwanted
            cases hwanted
  | ok scope =>
      simp only [hwanted, throwIf, bind, Except.bind] at h
      split at h
      · rename_i hdenied
        split at hdenied <;> cases hdenied
        cases h
        trivial
      · cases hrows : service.listedRows.mapM
            (BuildVariantRow.variant service.boundedDirectory) with
        | error other =>
            simp only [hrows, Except.mapError] at h
            cases h
            exact service.mapM_variant_error hrows
        | ok variants =>
            simp only [hrows, Except.mapError] at h
            split at h
            · rename_i hmissing
              split at hmissing <;> cases hmissing
              cases h
              trivial
            · cases h

/--
Scopes are resolved exactly when each authorised request is for builds among
the sixteen that the listing is bounded to, and the listing can be read.
-/
theorem resolvesExactly_iff (requested : Option (List String)) :
    service.ResolvesExactly requested ↔
      ∀ scope, service.wantedScope requested = .ok scope → service.Authorised scope →
        service.Listed scope := by
  constructor
  · intro hexact scope hwanted hauthorised
    have hreturned := (hexact.returned scope).mpr ⟨hwanted, hauthorised⟩
    exact (service.resolveScope_eq_ok.mp hreturned).2.2
  · intro hlisted
    refine ⟨fun scope => ?_, fun error => service.isValueError_of_error, fun scope hscope => ?_⟩
    · rw [service.resolveScope_eq_ok]
      constructor
      · rintro ⟨hwanted, hallowed, -, hrows⟩
        refine ⟨hwanted, fun name hname => ⟨hallowed name hname, ?_⟩⟩
        obtain ⟨row, hrow, rfl⟩ := hrows name hname
        exact service.indexed_of_listed hrow
      · rintro ⟨hwanted, hauthorised⟩
        exact ⟨hwanted, fun name hname => (hauthorised name hname).1,
          hlisted scope hwanted hauthorised⟩
    · exact (service.resolveScope_eq_ok.mp hscope).2.1

end ScopeService

/-! ### Seventeen builds -/

section SeventeenBuilds

theorem named_of_all {name : String}
    (h : (name ≠ "" ∧ name.toList.all (!isSpace ·) = true) ∧ name.length ≤ 128) :
    name ≠ "" ∧ (∀ c ∈ name.toList, isSpace c = false) ∧ name.length ≤ 128 := by
  simpa [and_assoc] using h

def letter (i : Fin 17) : BuildName :=
  ⟨String.singleton (Char.ofNat (97 + i.val)), named_of_all (by revert i; decide +kernel)⟩

/-- A project with the builds `a` to `q`. -/
def seventeenBuilds : BuildStore where
  projectRoot := none
  buildScope := .default
  projects := [⟨1, "/p"⟩]
  symbols := []
  variants := []
  variantKeys := List.nodup_nil
  buildVariants := (List.finRange 17).map fun i => ⟨1, letter i, []⟩
  buildVariantKeys := by decide +kernel

/-- The operator has enabled the last build. -/
def lastBuildService : ScopeService where
  store := seventeenBuilds
  projectRoot := "/p"
  allowedScope :=
    { variants := ["q"]
      nonempty := List.cons_ne_nil _ _
      distinct := List.nodup_singleton _
      named := by
        intro name hname
        rw [List.mem_singleton.mp hname]
        exact named_of_all (by decide +kernel)
      bounded := by decide }
  boundedDirectory := fun _ => true

theorem lastBuild_authorised : lastBuildService.Authorised lastBuildService.allowedScope := by
  intro name hname
  refine ⟨hname, 1, by decide +kernel, ⟨1, letter 16, []⟩, ?_, rfl, ?_⟩
  · exact List.mem_map.mpr ⟨16, List.mem_finRange _, rfl⟩
  · rw [List.mem_singleton.mp hname]
    decide +kernel

/-- The last of seventeen builds is indexed and enabled, and still refused. -/
theorem lastBuild_refused : ¬ lastBuildService.ResolvesExactly none := by
  intro hexact
  have hreturned := (hexact.returned lastBuildService.allowedScope).mpr
    ⟨rfl, lastBuild_authorised⟩
  obtain ⟨row, hrow, hname⟩ := (lastBuildService.resolveScope_eq_ok.mp hreturned).2.2.2 "q"
    (List.mem_singleton.mpr rfl)
  have hnames : "q" ∉ lastBuildService.listedRows.map fun row => row.name.val := by
    decide +kernel
  exact hnames (hname ▸ List.mem_map_of_mem hrow)

end SeventeenBuilds

end CppContextEngine.Server
