import CppContextEngine.Foundation.Ranking
import CppContextEngine.Foundation.Separators
import CppContextEngine.Foundation.Utf8Order
import Mathlib.Data.List.Dedup
import Mathlib.Order.WellFounded

/-!
# Names of source files

The engine and the analyzer each number the generated roots of a build and name
a file by the first root that holds it.  The engine orders the roots by their
text, the analyzer by the names on their way.  The two orders differ for roots
of which one ends a name where the other goes on with a character below the
separator.
-/

namespace CppContextEngine.Ingestion

open CppContextEngine.Foundation

/-! ## Paths -/

/-- A name between the separators of a path without links. -/
structure PathName where
  text : String
  nonempty : text ≠ ""
  plain : '/' ∉ text.toList
  notDot : text ≠ "."
  notDotDot : text ≠ ".."
  deriving DecidableEq

/-- An absolute path, as the names on its way. -/
abbrev CanonicalPath := List PathName

/-- A directory below the root of the file system. -/
structure SourceRoot where
  names : CanonicalPath
  bounded : names ≠ []
  deriving DecidableEq

/-- The text behind the root of the file system, with its separators. -/
def asPosix (path : CanonicalPath) : List Char :=
  joined '/' (path.map fun name => name.text.toList)

/-! ## The engine -/

/-- `sorted(canonical, key=lambda path: path.as_posix())` -/
def canonicalGeneratedSourceRoots (roots : List SourceRoot) : List SourceRoot :=
  sortBy (fun root => asPosix root.names) roots.dedup

def isRelativeTo (path root : CanonicalPath) : Bool := root.isPrefixOf path

/-- `path.relative_to(root).as_posix()` -/
def relativeTo (path root : CanonicalPath) : String :=
  match path.drop root.length with
  | [] => "."
  | names => "/".intercalate (names.map PathName.text)

def display (projectRoot : CanonicalPath) (generatedSourceRoots : List SourceRoot)
    (path : CanonicalPath) : Option String :=
  if isRelativeTo path projectRoot then some (relativeTo path projectRoot)
  else generatedSourceRoots.zipIdx.findSome? fun (root, index) =>
    if isRelativeTo path root.names then
      some ("@generated/" ++ toString index ++ "/" ++ relativeTo path root.names)
    else none

/-! ## The analyzer -/

/-- `std::mismatch`, what is left of both paths. -/
def mismatch : List String → List String → List String × List String
  | a :: path, b :: base => if a = b then mismatch path base else (a :: path, b :: base)
  | path, base => (path, base)

/-- `path::lexically_relative`, for absolute paths; no names are the empty path. -/
def lexicallyRelative (path base : List String) : List String :=
  let (left, right) := mismatch path base
  if left = [] ∧ right = [] then ["."]
  else
    let up : Int := (right.countP fun name => name ≠ "" ∧ name ≠ "." ∧ name ≠ "..") -
      right.count ".."
    if up = 0 ∧ left.head?.all (· = "") then ["."]
    else if 0 ≤ up then List.replicate up.toNat ".." ++ left
    else []

/-- The order of `std::filesystem::path`: the names, compared by their bytes. -/
def pathKey (path : CanonicalPath) : List (List Nat) := path.map fun name => byteValues name.text

/-- `std::unique` -/
def unique : List SourceRoot → List SourceRoot
  | a :: b :: rest => if a = b then unique (b :: rest) else a :: unique (b :: rest)
  | roots => roots

/-- The roots that `handleAnalyze` keeps. -/
def analyzerSourceRoots (roots : List SourceRoot) : List SourceRoot :=
  unique (sortBy (fun root => pathKey root.names) roots)

/-- `lexically_relative`, where the file is below the base. -/
def relativeBelow (path base : CanonicalPath) : Option String :=
  let relative := lexicallyRelative (path.map PathName.text) (base.map PathName.text)
  if relative ≠ [] ∧ relative.head? ≠ some ".." then some ("/".intercalate relative) else none

def relativePath (projectRoot : CanonicalPath) (generatedSourceRoots : List SourceRoot)
    (path : CanonicalPath) : Option String :=
  match relativeBelow path projectRoot with
  | some relative => some relative
  | none => generatedSourceRoots.zipIdx.findSome? fun (root, index) =>
      (relativeBelow path root.names).map fun relative =>
        "@generated/" ++ toString index ++ "/" ++ relative

/-! ## Containment -/

theorem mismatch_append (base rest : List String) : mismatch (base ++ rest) base = (rest, []) := by
  induction base with
  | nil => cases rest <;> rfl
  | cons name base ih => simp [mismatch, ih]

/-- What is left of a base that holds no file is the end of its names. -/
theorem mismatch_right {path base : List String} (h : ¬ base <+: path) :
    (mismatch path base).2 ≠ [] ∧ ∀ name ∈ (mismatch path base).2, name ∈ base := by
  induction path generalizing base with
  | nil =>
      cases base with
      | nil => simp at h
      | cons b base => simp [mismatch]
  | cons a path ih =>
      cases base with
      | nil => simp at h
      | cons b base =>
          rw [mismatch]
          split
          · rename_i hab
            have hbase : ¬ base <+: path := by
              simpa [hab, List.cons_prefix_cons] using h
            exact ⟨(ih hbase).1, fun name hname => List.mem_cons_of_mem b ((ih hbase).2 name hname)⟩
          · simp

theorem lexicallyRelative_of_prefix (base rest : List String) (h : ∀ name ∈ rest, name ≠ "") :
    lexicallyRelative (base ++ rest) base = if rest = [] then ["."] else rest := by
  unfold lexicallyRelative
  rw [mismatch_append]
  cases rest with
  | nil => simp
  | cons name rest =>
      have hname : name ≠ "" := h name List.mem_cons_self
      simp [hname]

/-- Out of a base one first goes up. -/
theorem lexicallyRelative_of_not_prefix {path base : List String} (h : ¬ base <+: path)
    (hbase : ∀ name ∈ base, name ≠ "" ∧ name ≠ "." ∧ name ≠ "..") :
    (lexicallyRelative path base).head? = some ".." := by
  obtain ⟨hne, hmem⟩ := mismatch_right h
  have hplain : ∀ name ∈ (mismatch path base).2, name ≠ "" ∧ name ≠ "." ∧ name ≠ ".." :=
    fun name hname => hbase name (hmem name hname)
  have hcount : (mismatch path base).2.countP (fun name => name ≠ "" ∧ name ≠ "." ∧ name ≠ "..") =
      (mismatch path base).2.length := by
    rw [List.countP_eq_length]
    intro name hname
    simpa using hplain name hname
  have hup : (mismatch path base).2.count ".." = 0 := by
    rw [List.count_eq_zero]
    exact fun hmem => (hplain _ hmem).2.2 rfl
  have hlength := List.length_pos_iff.mpr hne
  have hexcess : ((mismatch path base).2.countP
        (fun name => name ≠ "" ∧ name ≠ "." ∧ name ≠ "..") : Int) -
      (mismatch path base).2.count ".." = (mismatch path base).2.length := by
    rw [hcount, hup]
    omega
  obtain ⟨up, hlast⟩ := Nat.exists_eq_succ_of_ne_zero hlength.ne'
  have hpositive : ¬ ((up + 1 : Nat) : Int) = 0 := by omega
  have hnonneg : 0 ≤ ((up + 1 : Nat) : Int) := by omega
  unfold lexicallyRelative
  simp only [hexcess, hlast, hne, and_false, if_false, hpositive, false_and, hnonneg, if_true,
    Int.toNat_natCast, List.replicate_succ, List.cons_append, List.head?_cons]

theorem plain_of_mem {path : CanonicalPath} {name : String} (h : name ∈ path.map PathName.text) :
    name ≠ "" ∧ name ≠ "." ∧ name ≠ ".." := by
  obtain ⟨part, -, rfl⟩ := List.mem_map.mp h
  exact ⟨part.nonempty, part.notDot, part.notDotDot⟩

theorem text_injective : Function.Injective PathName.text := by
  rintro ⟨first, _⟩ ⟨second, _⟩ rfl
  rfl

theorem relativeBelow_eq (path base : CanonicalPath) :
    relativeBelow path base =
      if isRelativeTo path base then some (relativeTo path base) else none := by
  unfold relativeBelow isRelativeTo relativeTo
  by_cases hbelow : base <+: path
  · obtain ⟨rest, rfl⟩ := hbelow
    have hrest : ∀ name ∈ rest.map PathName.text, name ≠ "" :=
      fun name hname => (plain_of_mem hname).1
    rw [List.map_append, lexicallyRelative_of_prefix _ _ hrest]
    cases rest with
    | nil => simp
    | cons name rest => simp [name.notDotDot]
  · have htexts : ¬ base.map PathName.text <+: path.map PathName.text := by
      rwa [List.prefix_map_iff_of_injective text_injective]
    have hup := lexicallyRelative_of_not_prefix htexts fun name hname => plain_of_mem hname
    simp [hup, hbelow]

/-- On one list of roots the analyzer and the engine name files alike. -/
theorem relativePath_eq_display (projectRoot : CanonicalPath) (roots : List SourceRoot)
    (path : CanonicalPath) : relativePath projectRoot roots path = display projectRoot roots path := by
  unfold relativePath display
  simp only [relativeBelow_eq]
  by_cases hproject : isRelativeTo path projectRoot = true
  · simp [hproject]
  · simp only [hproject, Bool.false_eq_true, if_false]
    congr 1
    funext ⟨root, index⟩
    split <;> rfl

/-! ## Numbers of roots -/

/-- The root that names a file: it holds the file and is not inside another such root. -/
structure Outermost (roots : List SourceRoot) (path : CanonicalPath) (root : SourceRoot) :
    Prop where
  mem : root ∈ roots
  holds : isRelativeTo path root.names = true
  outermost : ∀ other ∈ roots, isRelativeTo path other.names = true → root.names <+: other.names

/-! ## The two orders -/

/-- The first text ends a name where the second goes on with a character below the separator. -/
def overtakes : List Char → List Char → Bool
  | a :: s, b :: t => if a = b then overtakes s t else a = '/' ∧ b < '/'
  | _, _ => false

theorem overtakes_iff {s t : List Char} :
    overtakes s t = true ↔ ∃ c, c < '/' ∧ Diverge '/' c s t := by
  induction s generalizing t with
  | nil => cases t <;> simp [overtakes, Diverge]
  | cons a s ih =>
      cases t with
      | nil => simp [overtakes, Diverge]
      | cons b t =>
          have hcons (c : Char) (hc : c < '/') :
              Diverge '/' c (a :: s) (b :: t) ↔ a = '/' ∧ b = c ∨ a = b ∧ Diverge '/' c s t :=
            diverge_cons_iff (ne_of_gt hc)
          rw [overtakes]
          by_cases hab : a = b
          · subst hab
            rw [if_pos rfl, ih]
            constructor
            · rintro ⟨c, hc, h⟩
              exact ⟨c, hc, h.cons a⟩
            · rintro ⟨c, hc, h⟩
              rcases (hcons c hc).mp h with ⟨rfl, rfl⟩ | ⟨-, h⟩
              · exact absurd hc (lt_irrefl _)
              · exact ⟨c, hc, h⟩
          · simp only [if_neg hab, decide_eq_true_eq]
            constructor
            · rintro ⟨rfl, hb⟩
              exact ⟨b, hb, (hcons b hb).mpr (.inl ⟨rfl, rfl⟩)⟩
            · rintro ⟨c, hc, h⟩
              rcases (hcons c hc).mp h with ⟨rfl, rfl⟩ | ⟨hsame, -⟩
              · exact ⟨rfl, hc⟩
              · exact absurd hsame hab

/-- The number that a character has when the separator comes first. -/
def separatorFirst (c : Char) : Nat := if c = '/' then 0 else c.toNat + 1

theorem separatorFirst_injective : Function.Injective separatorFirst := by
  intro c d h
  unfold separatorFirst at h
  split at h <;> split at h
  · simp [*]
  · omega
  · omega
  · exact Char.toNat_inj.mp (by omega)

theorem separatorFirst_lt_iff {c d : Char} :
    separatorFirst c < separatorFirst d ∧ d.toNat < c.toNat ↔ c = '/' ∧ d < '/' := by
  unfold separatorFirst
  constructor
  · rintro ⟨hlt, hgt⟩
    split at hlt
    · rename_i hc
      exact ⟨hc, by rw [hc] at hgt; exact hgt⟩
    · split at hlt <;> omega
  · rintro ⟨rfl, hd⟩
    have hne : d ≠ '/' := ne_of_lt hd
    exact ⟨by simp [hne], hd⟩

theorem map_separatorFirst (path : CanonicalPath) : (asPosix path).map separatorFirst =
    joined 0 ((path.map fun name => name.text.toList).map (List.map fun c => c.toNat + 1)) := by
  induction path with
  | nil => rfl
  | cons name path ih =>
      have hname : name.text.toList.map separatorFirst =
          name.text.toList.map fun c => c.toNat + 1 := by
        apply List.map_congr_left
        intro c hc
        have hplain : c ≠ '/' := fun h => name.plain (h ▸ hc)
        simp [separatorFirst, hplain]
      unfold asPosix joined at *
      simp only [List.map_cons, List.flatMap_cons, List.map_append, ih, hname]
      rfl

/-- The order of the analyzer, as one of texts whose alphabet begins with the separator. -/
theorem pathKey_lt_iff {path other : CanonicalPath} :
    pathKey path < pathKey other ↔
      (asPosix path).map separatorFirst < (asPosix other).map separatorFirst := by
  have hletters : StrictMono fun c : Char => c.toNat + 1 :=
    fun c d (h : c.toNat < d.toNat) => Nat.succ_lt_succ h
  have hshape (path : CanonicalPath) :
      pathKey path = (path.map fun name => name.text.toList).map (·.flatMap codeValues) := by
    simp [pathKey, byteValues_eq]
  have habove (path : CanonicalPath) : Above 0 ((path.map fun name => name.text.toList).map
      (List.map fun c => c.toNat + 1)) := by
    intro name hname a ha
    simp only [List.mem_map] at hname
    obtain ⟨chars, -, rfl⟩ := hname
    obtain ⟨c, -, rfl⟩ := List.mem_map.mp ha
    omega
  rw [hshape, hshape, (map_strictMono strictMono_flatMap_codeValues).lt_iff_lt,
    map_separatorFirst, map_separatorFirst, joined_lt_iff (habove path) (habove other),
    (map_strictMono (map_strictMono hletters)).lt_iff_lt]

theorem strictMono_toNat : StrictMono Char.toNat := fun _ _ h => h

theorem asPosix_lt_iff {path other : CanonicalPath} :
    asPosix path < asPosix other ↔
      (asPosix path).map Char.toNat < (asPosix other).map Char.toNat :=
  (map_strictMono strictMono_toNat).lt_iff_lt.symm

/-- The engine puts a root before another and the analyzer does not where the other overtakes. -/
theorem asPosix_lt_and_not_pathKey_lt {path other : CanonicalPath} :
    (asPosix path < asPosix other ∧ ¬ pathKey path < pathKey other) ↔
      overtakes (asPosix other) (asPosix path) = true := by
  rw [asPosix_lt_iff, pathKey_lt_iff,
    map_lt_and_not_map_lt_iff strictMono_toNat.injective separatorFirst_injective, overtakes_iff]
  constructor
  · rintro ⟨a, b, hab, hba, h⟩
    obtain ⟨rfl, ha⟩ := separatorFirst_lt_iff.mp ⟨hba, hab⟩
    exact ⟨a, ha, h.symm⟩
  · rintro ⟨c, hc, h⟩
    obtain ⟨hseparator, hcode⟩ := separatorFirst_lt_iff.mpr ⟨rfl, hc⟩
    exact ⟨c, '/', hcode, hseparator, h.symm⟩

theorem pathKey_lt_and_not_asPosix_lt {path other : CanonicalPath} :
    (pathKey path < pathKey other ∧ ¬ asPosix path < asPosix other) ↔
      overtakes (asPosix path) (asPosix other) = true := by
  rw [asPosix_lt_iff, pathKey_lt_iff,
    map_lt_and_not_map_lt_iff separatorFirst_injective strictMono_toNat.injective, overtakes_iff]
  constructor
  · rintro ⟨a, b, hab, hba, h⟩
    obtain ⟨rfl, hb⟩ := separatorFirst_lt_iff.mp ⟨hab, hba⟩
    exact ⟨b, hb, h⟩
  · rintro ⟨c, hc, h⟩
    obtain ⟨hseparator, hcode⟩ := separatorFirst_lt_iff.mpr ⟨rfl, hc⟩
    exact ⟨'/', c, hseparator, hcode, h⟩

/-! ## The lists of roots -/

theorem pathKey_injective : Function.Injective pathKey := by
  have hname : Function.Injective fun name : PathName => byteValues name.text := by
    intro first second h
    simp only [byteValues_eq] at h
    exact text_injective (String.toList_injective (strictMono_flatMap_codeValues.injective h))
  exact List.map_injective_iff.mpr hname

/-- The texts of two paths are the same only where neither order puts one first. -/
theorem asPosix_injective : Function.Injective asPosix := by
  intro path other h
  apply pathKey_injective
  have hnot (first second : CanonicalPath) (hsame : asPosix first = asPosix second) :
      ¬ pathKey first < pathKey second := by
    rw [pathKey_lt_iff, hsame]
    exact lt_irrefl _
  exact le_antisymm (not_lt.mp (hnot other path h.symm)) (not_lt.mp (hnot path other h))

theorem names_injective : Function.Injective SourceRoot.names := by
  rintro ⟨first, _⟩ ⟨second, _⟩ rfl
  rfl

theorem mem_unique {roots : List SourceRoot} {root : SourceRoot} :
    root ∈ unique roots ↔ root ∈ roots := by
  induction roots using unique.induct with
  | case1 a rest ih => simp [unique, ih]
  | case2 a b rest hab ih => simp [unique, hab, ih]
  | case3 roots hroots =>
    rw [unique]
    exact hroots

/-- Sorted roots are in strict order once neighbours that are the same are one. -/
theorem pairwise_unique {κ : Type} [LinearOrder κ] {key : SourceRoot → κ}
    (hkey : Function.Injective key) {roots : List SourceRoot}
    (hsorted : roots.Pairwise fun first second => key first ≤ key second) :
    (unique roots).Pairwise fun first second => key first < key second := by
  induction roots using unique.induct with
  | case1 a rest ih =>
      rw [unique, if_pos rfl]
      exact ih (List.pairwise_cons.mp hsorted).2
  | case2 a b rest hab ih =>
      obtain ⟨hfirst, hrest⟩ := List.pairwise_cons.mp hsorted
      have hlt : key a < key b :=
        lt_of_le_of_ne (hfirst b List.mem_cons_self) (hkey.ne hab)
      rw [unique, if_neg hab, List.pairwise_cons]
      constructor
      · intro other hother
        rcases List.mem_cons.mp (mem_unique.mp hother) with rfl | hother
        · exact hlt
        · exact hlt.trans_le ((List.pairwise_cons.mp hrest).1 other hother)
      · exact ih hrest
  | case3 roots hroots =>
      cases roots with
      | nil => simp [unique]
      | cons a rest =>
          cases rest with
          | nil => simp [unique]
          | cons b rest => exact absurd rfl (hroots a b rest)

theorem canonicalGeneratedSourceRoots_perm (roots : List SourceRoot) :
    (canonicalGeneratedSourceRoots roots).Perm roots.dedup :=
  sortBy_perm _ _

theorem pairwise_canonicalGeneratedSourceRoots (roots : List SourceRoot) :
    (canonicalGeneratedSourceRoots roots).Pairwise fun first second =>
      asPosix first.names < asPosix second.names :=
  pairwise_lt_sortBy _ (roots.nodup_dedup.map (asPosix_injective.comp names_injective))

theorem pairwise_analyzerSourceRoots (roots : List SourceRoot) :
    (analyzerSourceRoots roots).Pairwise fun first second =>
      pathKey first.names < pathKey second.names :=
  pairwise_unique (pathKey_injective.comp names_injective) (sortBy_pairwise _ _)

theorem analyzerSourceRoots_perm (roots : List SourceRoot) :
    (analyzerSourceRoots roots).Perm roots.dedup := by
  have hnodup : (analyzerSourceRoots roots).Nodup := by
    refine (pairwise_analyzerSourceRoots roots).imp ?_
    rintro first second hlt rfl
    exact lt_irrefl _ hlt
  rw [List.perm_ext_iff_of_nodup hnodup roots.nodup_dedup]
  intro root
  rw [analyzerSourceRoots, mem_unique, mem_sortBy, List.mem_dedup]

/-! ## The two names of a file -/

/-- As many roots overtake the outermost root of the file as it overtakes. -/
def NumbersAgree (roots : List SourceRoot) (path : CanonicalPath) : Prop :=
  ∀ root, Outermost roots path root →
    (roots.dedup.countP fun other => overtakes (asPosix other.names) (asPosix root.names)) =
      roots.dedup.countP fun other => overtakes (asPosix root.names) (asPosix other.names)

theorem asPosix_le_of_prefix {path other : CanonicalPath} (h : path <+: other) :
    asPosix path ≤ asPosix other := by
  obtain ⟨rest, rfl⟩ := h
  apply le_of_prefix
  simp [asPosix, joined]

theorem pathKey_le_of_prefix {path other : CanonicalPath} (h : path <+: other) :
    pathKey path ≤ pathKey other :=
  le_of_prefix (h.map _)

section Display

variable {projectRoot path : CanonicalPath} {roots sorted : List SourceRoot} {root : SourceRoot}

/-- Sorted by a key that puts a directory before what is in it, the roots name a file by the
outermost one and the number of roots before that. -/
theorem display_of_outermost {κ : Type} [LinearOrder κ] {key : CanonicalPath → κ}
    (hbelow : ∀ {path other : CanonicalPath}, path <+: other → key path ≤ key other)
    (hsorted : sorted.Pairwise fun first second => key first.names < key second.names)
    (hperm : sorted.Perm roots.dedup) (hproject : isRelativeTo path projectRoot = false)
    (hroot : Outermost roots path root) :
    display projectRoot sorted path = some ("@generated/" ++
      toString (roots.dedup.countP fun other => key other.names < key root.names) ++ "/" ++
        relativeTo path root.names) := by
  have hmem {other : SourceRoot} : other ∈ sorted ↔ other ∈ roots := by
    rw [hperm.mem_iff, List.mem_dedup]
  have hfirst : ∀ other ∈ sorted, isRelativeTo path other.names = true →
      key root.names ≤ key other.names :=
    fun other hother hholds => hbelow (hroot.outermost other (hmem.mp hother) hholds)
  have hnumber := findSome?_zipIdx_eq (fun other => isRelativeTo path other.names)
    (fun index other => "@generated/" ++ toString index ++ "/" ++ relativeTo path other.names)
    hsorted (hmem.mpr hroot.mem) hroot.holds hfirst
  rw [display, hproject, if_neg Bool.false_ne_true, ← hperm.countP_eq]
  exact hnumber

theorem display_of_no_root (hperm : sorted.Perm roots.dedup)
    (hproject : isRelativeTo path projectRoot = false)
    (hnone : ∀ root ∈ roots, isRelativeTo path root.names = false) :
    display projectRoot sorted path = none := by
  have hsorted : ∀ root ∈ sorted, isRelativeTo path root.names = false :=
    fun root hroot => hnone root (List.mem_dedup.mp (hperm.mem_iff.mp hroot))
  rw [display, hproject, if_neg Bool.false_ne_true, List.findSome?_eq_none_iff]
  rintro ⟨root, index⟩ hroot
  have hmem : root ∈ sorted := (List.mem_zipIdx' hroot).2 ▸ List.getElem_mem _
  simp [hsorted root hmem]

/-- Of the roots that hold a file, one holds the others. -/
theorem exists_outermost (h : ∃ root ∈ roots, isRelativeTo path root.names = true) :
    ∃ root, Outermost roots path root := by
  obtain ⟨first, hfirst, hholds⟩ := h
  obtain ⟨root, ⟨hmem, hroot⟩, hleast⟩ :=
    (measure fun root : SourceRoot => root.names.length).wf.has_min
      {root | root ∈ roots ∧ isRelativeTo path root.names = true} ⟨first, hfirst, hholds⟩
  refine ⟨root, hmem, hroot, ?_⟩
  intro other hother hotherHolds
  have hlength : root.names.length ≤ other.names.length :=
    not_lt.mp (hleast other ⟨hother, hotherHolds⟩)
  unfold isRelativeTo at hroot hotherHolds
  exact List.prefix_of_prefix_length_le (List.isPrefixOf_iff_prefix.mp hroot)
    (List.isPrefixOf_iff_prefix.mp hotherHolds) hlength

end Display

/-- The two names of a file that a generated root holds. -/
theorem display_eq_iff_of_outermost {projectRoot path : CanonicalPath} {roots : List SourceRoot}
    {root : SourceRoot} (hproject : isRelativeTo path projectRoot = false)
    (hroot : Outermost roots path root) :
    display projectRoot (analyzerSourceRoots roots) path =
        display projectRoot (canonicalGeneratedSourceRoots roots) path ↔
      (roots.dedup.countP fun other => overtakes (asPosix other.names) (asPosix root.names)) =
        roots.dedup.countP fun other => overtakes (asPosix root.names) (asPosix other.names) := by
  have hanalyzer := display_of_outermost pathKey_le_of_prefix (pairwise_analyzerSourceRoots roots)
    (analyzerSourceRoots_perm roots) hproject hroot
  have hengine := display_of_outermost asPosix_le_of_prefix
    (pairwise_canonicalGeneratedSourceRoots roots) (canonicalGeneratedSourceRoots_perm roots)
    hproject hroot
  rw [hanalyzer, hengine, Option.some_inj, String.append_left_inj, String.append_left_inj,
    String.append_right_inj, toString_nat_injective.eq_iff, countP_eq_iff]
  refine iff_of_eq (congrArg₂ Eq (List.countP_congr ?_) (List.countP_congr ?_))
  · intro other _
    rw [← pathKey_lt_and_not_asPosix_lt]
    simp
  · intro other _
    rw [← asPosix_lt_and_not_pathKey_lt]
    simp

/-- A file has one outermost root at most. -/
theorem Outermost.unique {roots : List SourceRoot} {path : CanonicalPath} {root other : SourceRoot}
    (hroot : Outermost roots path root) (hother : Outermost roots path other) : root = other := by
  have hle := hroot.outermost other hother.mem hother.holds
  have hge := hother.outermost root hroot.mem hroot.holds
  exact names_injective (hle.eq_of_length_le hge.length_le)

/-- The analyzer and the engine name a file alike exactly when it is in the project, or its
outermost generated root has the same number in both orders. -/
theorem relativePath_eq_display_iff (projectRoot : CanonicalPath) (roots : List SourceRoot)
    (path : CanonicalPath) :
    relativePath projectRoot (analyzerSourceRoots roots) path =
        display projectRoot (canonicalGeneratedSourceRoots roots) path ↔
      isRelativeTo path projectRoot = true ∨ NumbersAgree roots path := by
  rw [relativePath_eq_display]
  by_cases hproject : isRelativeTo path projectRoot = true
  · simp [display, hproject]
  have houtside : isRelativeTo path projectRoot = false := by simpa using hproject
  simp only [houtside, false_or, Bool.false_eq_true]
  by_cases hroots : ∃ root ∈ roots, isRelativeTo path root.names = true
  · obtain ⟨root, hroot⟩ := exists_outermost hroots
    rw [display_eq_iff_of_outermost houtside hroot]
    constructor
    · intro hcounts other hother
      rw [← hroot.unique hother]
      exact hcounts
    · intro hagree
      exact hagree root hroot
  · have hnone : ∀ root ∈ roots, isRelativeTo path root.names = false := by
      simpa using hroots
    rw [display_of_no_root (analyzerSourceRoots_perm roots) houtside hnone,
      display_of_no_root (canonicalGeneratedSourceRoots_perm roots) houtside hnone]
    simp only [true_iff]
    intro root hroot
    exact absurd hroot.holds (by simp [hnone root hroot.mem])

def nameA : PathName := ⟨"a", by decide, by decide, by decide, by decide⟩
def nameB : PathName := ⟨"b", by decide, by decide, by decide, by decide⟩
def nameBC : PathName := ⟨"b-c", by decide, by decide, by decide, by decide⟩

/-- Below `/a`, the directory `b/a` has number 0 for the analyzer and 1 for the engine. -/
theorem relativePath_ne_display :
    relativePath [nameB] (analyzerSourceRoots
        [⟨[nameA, nameB, nameA], by simp⟩, ⟨[nameA, nameBC], by simp⟩])
        [nameA, nameB, nameA, nameB] = some "@generated/0/b" ∧
      display [nameB] (canonicalGeneratedSourceRoots
        [⟨[nameA, nameB, nameA], by simp⟩, ⟨[nameA, nameBC], by simp⟩])
        [nameA, nameB, nameA, nameB] = some "@generated/1/b" := by
  decide +kernel

end CppContextEngine.Ingestion
