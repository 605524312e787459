import CppContextEngine.Foundation.Utf8
import CppContextEngine.Ingestion.CompilationDatabase
import CppContextEngine.Models.BatchRows

/-!
# Identities of compile commands

The digest of a command is taken of its parts, each ended by a zero byte.  A
text of a path holds no zero byte, but an argument of a JSON array may, and an
argument may look like the tag before the generated roots.  So the digest tells
the words between the zero bytes, and two commands share an identity exactly
when these are the same.
-/

namespace CppContextEngine.Ingestion

open CppContextEngine.Foundation CppContextEngine.Models

/-! ## What a changed command is seen by -/

/-- What is stored of one indexed translation unit. -/
structure TranslationUnitState where
  commandHash : String
  contentHash : String
  dependencies : List (ResolvedPath × String)
  analysisBackend : String
  advancedFactsComplete : Bool
  indexProfile : IndexProfile
  analyzerIdentity : String

/-- The analyzer of the present run. -/
structure IndexRequest where
  analysisBackend : String
  advancedFactsComplete : Bool
  profile : IndexProfile := .full
  analyzerIdentity : String := ""
  /-- The digest of a file's content, if it is a file. -/
  fileHash : ResolvedPath → Option String

def needsReindex (request : IndexRequest) (configuration : BuildConfiguration) :
    Option TranslationUnitState → Bool
  | none => true
  | some state =>
      if state.commandHash ≠ configuration.commandHash then true
      else if request.analysisBackend = "clang-libtooling" ∧
          (request.analyzerIdentity = "" ∨ state.analyzerIdentity ≠ request.analyzerIdentity) then
        true
      else if state.analysisBackend ≠ request.analysisBackend ∨
          state.advancedFactsComplete ≠ request.advancedFactsComplete ∨
          state.indexProfile ≠ request.profile then
        true
      else if request.fileHash configuration.sourcePath ≠ some state.contentHash then true
      else state.dependencies.any fun dependency =>
        request.fileHash dependency.1 ≠ some dependency.2

/-- `previous.get(translation_unit_id(configuration))` when one unit was indexed. -/
def stateAfter (digests : Digests) (indexed configuration : BuildConfiguration)
    (state : TranslationUnitState) : Option TranslationUnitState :=
  if translationUnitId digests configuration = translationUnitId digests indexed then some state
  else none

/-- The configurations that `load` keeps of its entries. -/
def keptConfigurations (entries : List BuildConfiguration) : List BuildConfiguration :=
  (entries.foldl (keepFirst BuildConfiguration.id) ([], [])).2

/-- The entry is one that `load` accepts for the build. -/
def Accepted (digests : Digests) (buildVariant : CodePoints) (entry : BuildConfiguration) : Prop :=
  ∃ (host : Host) (path : ResolvedPath) (generatedSourceRoots : List ResolvedPath)
    (position : Nat) (raw : RawJson), host.digests = digests ∧
      parseEntry host path buildVariant generatedSourceRoots position raw = .ok entry

/-- Different entries have different identities, so that none is dropped or passed over for
another one. -/
structure IdentityInjective (digests : Digests) (entries : List BuildConfiguration) : Prop where
  hashes : ∀ first ∈ entries, ∀ second ∈ entries, first ≠ second →
    first.commandHash ≠ second.commandHash
  ids : ∀ first ∈ entries, ∀ second ∈ entries, first ≠ second → first.id ≠ second.id
  units : ∀ first ∈ entries, ∀ second ∈ entries, first ≠ second →
    translationUnitId digests first ≠ translationUnitId digests second
  /-- An entry that is dropped equals an earlier one. -/
  kept : ∀ earlier entry later, entries = earlier ++ entry :: later →
    keptConfigurations (earlier ++ [entry]) = keptConfigurations earlier → entry ∈ earlier
  /-- A command in place of another one is indexed again, whatever else is stored. -/
  seen : ∀ indexed ∈ entries, ∀ entry ∈ entries, indexed ≠ entry →
    ∀ (request : IndexRequest) (state : TranslationUnitState),
      state.commandHash = indexed.commandHash →
        needsReindex request entry (stateAfter digests indexed entry state) = true

/-! ## The words of a command -/

def argumentBytes (entry : BuildConfiguration) : List Bytes :=
  entry.arguments.map fun argument => argument.encode.getD []

/-- The arguments, cut at their zero bytes. -/
def argumentWords (entry : BuildConfiguration) : List Bytes := words 0 (argumentBytes entry)

def outputBytes (entry : BuildConfiguration) : Bytes :=
  match entry.output with
  | some path => path.bytes
  | none => []

def rootBytes (entry : BuildConfiguration) : List Bytes :=
  entry.generatedSourceRoots.map ResolvedPath.bytes

/-- The arguments of the first entry go on as the output and the roots of the second do. -/
def ArgumentsReadAsRoots (first second : BuildConfiguration) : Prop :=
  rootBytes first = [] ∧ ∃ front last, rootBytes second = front ++ [last] ∧
    argumentWords first =
      argumentWords second ++ outputBytes second :: utf8 generatedRootsTag :: front ∧
    outputBytes first = last

/-- Two commands that differ, but not in what the zero bytes leave of them. -/
structure Confusable (first second : BuildConfiguration) : Prop where
  differ : first ≠ second
  directory : first.directory.bytes = second.directory.bytes
  sourcePath : first.sourcePath.bytes = second.sourcePath.bytes
  rest : (argumentWords first = argumentWords second ∧ outputBytes first = outputBytes second ∧
      rootBytes first = rootBytes second) ∨
    ArgumentsReadAsRoots first second ∨ ArgumentsReadAsRoots second first

/-- The tag and the roots behind it, if there are any. -/
def taggedRoots (roots : List Bytes) : List Bytes :=
  if roots = [] then [] else utf8 generatedRootsTag :: roots

def identityBytes (entry : BuildConfiguration) : List Bytes :=
  [entry.directory.bytes, entry.sourcePath.bytes] ++ argumentBytes entry ++
    [outputBytes entry] ++ taggedRoots (rootBytes entry)

theorem root_ne_tag (entry : BuildConfiguration) :
    utf8 generatedRootsTag ∉ rootBytes entry := by
  intro hmem
  obtain ⟨root, -, hroot⟩ := List.mem_map.mp hmem
  have habsolute := root.absolute
  rw [hroot] at habsolute
  revert habsolute
  decide +kernel

theorem notMem_outputBytes (entry : BuildConfiguration) : 0 ∉ outputBytes entry := by
  unfold outputBytes
  cases entry.output with
  | none => simp
  | some path => exact path.noNul

theorem words_taggedRoots (entry : BuildConfiguration) :
    words 0 (taggedRoots (rootBytes entry)) = taggedRoots (rootBytes entry) := by
  apply words_of_notMem
  intro part hpart
  unfold taggedRoots at hpart
  split at hpart
  · simp at hpart
  · rcases List.mem_cons.mp hpart with rfl | hroot
    · decide +kernel
    · obtain ⟨root, -, rfl⟩ := List.mem_map.mp hroot
      exact root.noNul

theorem words_identityBytes (entry : BuildConfiguration) :
    words 0 (identityBytes entry) = entry.directory.bytes :: entry.sourcePath.bytes ::
      (argumentWords entry ++ outputBytes entry :: taggedRoots (rootBytes entry)) := by
  have hpaths : words 0 [entry.directory.bytes, entry.sourcePath.bytes] =
      [entry.directory.bytes, entry.sourcePath.bytes] := by
    apply words_of_notMem
    simp [entry.directory.noNul, entry.sourcePath.noNul]
  have houtput : words 0 [outputBytes entry] = [outputBytes entry] := by
    apply words_of_notMem
    simp [notMem_outputBytes]
  rw [identityBytes, words_append, words_append, words_append, hpaths, houtput,
    words_taggedRoots, ← argumentWords]
  simp

section Decoding

variable {front front' : List Bytes} {output output' tag : Bytes} {roots roots' : List Bytes}

theorem append_pair_inj :
    front ++ [output] = front' ++ [output'] ↔ front = front' ∧ output = output' := by
  constructor
  · intro h
    obtain ⟨hfront, houtput⟩ := List.append_inj' h rfl
    exact ⟨hfront, List.singleton_inj.mp houtput⟩
  · rintro ⟨rfl, rfl⟩
    rfl

/-- Roots that are not the tag begin behind its last occurrence. -/
theorem append_roots_inj (hroots : tag ∉ roots) (hroots' : tag ∉ roots') :
    front ++ output :: tag :: roots = front' ++ output' :: tag :: roots' ↔
      front = front' ∧ output = output' ∧ roots = roots' := by
  constructor
  · intro h
    have hsplit : (front ++ [output]) ++ tag :: roots = (front' ++ [output']) ++ tag :: roots' := by
      simpa using h
    obtain ⟨hfront, hsame⟩ := append_cons_inj_of_last hroots hroots' hsplit
    obtain ⟨hfront, houtput⟩ := append_pair_inj.mp hfront
    exact ⟨hfront, houtput, hsame⟩
  · rintro ⟨rfl, rfl, rfl⟩
    rfl

/-- Without roots the output is what stands last. -/
theorem append_output_inj (hne : roots ≠ []) :
    front ++ [output] = front' ++ output' :: tag :: roots ↔
      ∃ init last, roots = init ++ [last] ∧ front = front' ++ output' :: tag :: init ∧
        output = last := by
  obtain ⟨init, last, rfl⟩ := List.eq_nil_or_concat roots |>.resolve_left hne
  have hsplit : front' ++ output' :: tag :: (init ++ [last]) =
      (front' ++ output' :: tag :: init) ++ [last] := by
    simp
  rw [List.concat_eq_append, hsplit, append_pair_inj]
  constructor
  · rintro ⟨hfront, houtput⟩
    exact ⟨init, last, rfl, hfront, houtput⟩
  · rintro ⟨init', last', hsame, hfront, houtput⟩
    obtain ⟨rfl, rfl⟩ := append_pair_inj.mp hsame
    exact ⟨hfront, houtput⟩

end Decoding

theorem not_argumentsReadAsRoots_of_nil (first : BuildConfiguration) {second : BuildConfiguration}
    (h : rootBytes second = []) : ¬ ArgumentsReadAsRoots first second := by
  rintro ⟨-, front, last, hroots, -⟩
  rw [h] at hroots
  simp at hroots

theorem argumentsReadAsRoots_iff {first second : BuildConfiguration} (h : rootBytes first = [])
    (hne : rootBytes second ≠ []) :
    argumentWords first ++ [outputBytes first] =
        argumentWords second ++ outputBytes second :: utf8 generatedRootsTag :: rootBytes second ↔
      ArgumentsReadAsRoots first second := by
  simp [append_output_inj hne, ArgumentsReadAsRoots, h]

/-- What the words of a command leave open is where its roots begin. -/
theorem behindPaths_eq_iff (first second : BuildConfiguration) :
    argumentWords first ++ outputBytes first :: taggedRoots (rootBytes first) =
        argumentWords second ++ outputBytes second :: taggedRoots (rootBytes second) ↔
      (argumentWords first = argumentWords second ∧ outputBytes first = outputBytes second ∧
          rootBytes first = rootBytes second) ∨
        ArgumentsReadAsRoots first second ∨ ArgumentsReadAsRoots second first := by
  unfold taggedRoots
  by_cases hfirst : rootBytes first = []
  · have hnot := not_argumentsReadAsRoots_of_nil second hfirst
    rw [if_pos hfirst]
    by_cases hsecond : rootBytes second = []
    · have hnot' := not_argumentsReadAsRoots_of_nil first hsecond
      rw [if_pos hsecond, append_pair_inj]
      simp [hfirst, hsecond, hnot, hnot']
    · rw [if_neg hsecond, argumentsReadAsRoots_iff hfirst hsecond]
      simp [hfirst, hnot, Ne.symm hsecond]
  · rw [if_neg hfirst]
    by_cases hsecond : rootBytes second = []
    · have hnot := not_argumentsReadAsRoots_of_nil first hsecond
      rw [if_pos hsecond, eq_comm, argumentsReadAsRoots_iff hsecond hfirst]
      simp [hfirst, hsecond, hnot]
    · rw [if_neg hsecond, append_roots_inj (root_ne_tag first) (root_ne_tag second)]
      simp [ArgumentsReadAsRoots, hfirst, hsecond]

theorem words_identityBytes_eq_iff {first second : BuildConfiguration} (hne : first ≠ second) :
    words 0 (identityBytes first) = words 0 (identityBytes second) ↔
      Confusable first second := by
  rw [words_identityBytes, words_identityBytes, List.cons_eq_cons, List.cons_eq_cons,
    behindPaths_eq_iff]
  constructor
  · rintro ⟨hdirectory, hsourcePath, hrest⟩
    exact ⟨hne, hdirectory, hsourcePath, hrest⟩
  · intro h
    exact ⟨h.directory, h.sourcePath, h.rest⟩

/-- With one list of roots, as in one database, only the words of the arguments tell. -/
theorem not_confusable_of_words_ne {first second : BuildConfiguration}
    (hroots : rootBytes first = rootBytes second)
    (hwords : argumentWords first ≠ argumentWords second) : ¬ Confusable first second := by
  intro h
  rcases h.rest with hsame | ⟨hnil, hreads⟩ | ⟨hnil, hreads⟩
  · exact hwords hsame.1
  · exact not_argumentsReadAsRoots_of_nil first (hroots ▸ hnil) ⟨hnil, hreads⟩
  · exact not_argumentsReadAsRoots_of_nil second (hroots.trans hnil) ⟨hnil, hreads⟩

/-! ## What an accepted entry says of itself -/

/-- The identities of an entry, from the bytes of its parts. -/
structure Identified (digests : Digests) (buildVariant : CodePoints) (entry : BuildConfiguration) :
    Prop where
  commandHash : entry.commandHash = digests.hexdigest (terminated 0 (identityBytes entry))
  variant : entry.buildVariant = buildVariant
  id : ∃ variantBytes, buildVariant.encode = some variantBytes ∧
    entry.id = "build_" ++ digests.shorten
      (digests.hexdigest (terminated 0 [variantBytes, utf8 entry.commandHash]))

theorem digest_eq_ok {digests : Digests} {parts : List CodePoints} {text : String}
    (h : digest digests parts = .ok text) :
    ∃ encoded, List.Forall₂ (fun part bytes => part.encode = some bytes) parts encoded ∧
      text = digests.hexdigest (terminated 0 encoded) := by
  unfold digest at h
  split at h
  · rename_i encoded hencoded
    exact ⟨encoded, option_mapM_iff.mp hencoded, (Except.ok.inj h).symm⟩
  · cases h

theorem encoded_eq {parts : List CodePoints} {encoded : List Bytes}
    (h : List.Forall₂ (fun part bytes => part.encode = some bytes) parts encoded) :
    encoded = parts.map fun part => part.encode.getD [] := by
  induction h with
  | nil => rfl
  | cons hpart hrest ih => rw [List.map_cons, hpart, Option.getD_some, ← ih]

theorem encode_commandIdentity (entry : BuildConfiguration) :
    (commandIdentity entry.directory entry.sourcePath entry.arguments entry.output
      entry.generatedSourceRoots).map (fun part => part.encode.getD []) = identityBytes entry := by
  have hpath (path : ResolvedPath) : path.text.encode.getD [] = path.bytes := by
    rw [path.encoded, Option.getD_some]
  have houtput : (outputText entry.output).encode.getD [] = outputBytes entry := by
    unfold outputBytes
    cases entry.output with
    | none => rfl
    | some path => exact hpath path
  have hroots : entry.generatedSourceRoots.map (fun root => root.text.encode.getD []) =
      rootBytes entry := by
    simp [rootBytes, hpath]
  unfold commandIdentity identityBytes taggedRoots argumentBytes
  by_cases hnil : entry.generatedSourceRoots = []
  · simp [hpath, houtput, hnil, rootBytes]
  · simp [hpath, houtput, hnil, rootBytes, CodePoints.encode_ofString]

theorem identified_of_identify {digests : Digests} {buildVariant : CodePoints}
    {directory sourcePath : ResolvedPath} {arguments : List CodePoints}
    {output : Option ResolvedPath} {generatedSourceRoots : List ResolvedPath}
    {entry : BuildConfiguration}
    (h : identify digests buildVariant directory sourcePath arguments output
      generatedSourceRoots = .ok entry) :
    Identified digests buildVariant entry := by
  unfold identify at h
  obtain ⟨commandHash, hcommand, hrest⟩ := bind_eq_ok.mp h
  obtain ⟨short, hshort, hentry⟩ := bind_eq_ok.mp hrest
  obtain ⟨encoded, hencoded, hhash⟩ := digest_eq_ok hcommand
  obtain ⟨shortEncoded, hshortEncoded, hshortHash⟩ := digest_eq_ok hshort
  have hidentity := encode_commandIdentity entry
  cases Except.ok.inj hentry
  constructor
  · rw [← hidentity, ← encoded_eq hencoded]
    exact hhash
  · rfl
  · cases hshortEncoded with
    | cons hvariant hrest =>
        cases hrest with
        | cons hcommandHash hnil =>
            cases hnil
            rw [CodePoints.encode_ofString] at hcommandHash
            cases Option.some.inj hcommandHash
            exact ⟨_, hvariant, by rw [hshortHash]⟩

theorem identified_of_parseEntry {host : Host} {path : ResolvedPath} {buildVariant : CodePoints}
    {generatedSourceRoots : List ResolvedPath} {position : Nat} {raw : RawJson}
    {entry : BuildConfiguration}
    (h : parseEntry host path buildVariant generatedSourceRoots position raw = .ok entry) :
    Identified host.digests buildVariant entry := by
  unfold parseEntry at h
  cases raw with
  | object fields =>
      simp only [bind_eq_ok] at h
      obtain ⟨_, _, _, _, _, _, _, _, _, _, _, _, _, _, _, _, _, _, _, _, hentry⟩ := h
      exact identified_of_identify hentry
  | null => cases h
  | other => cases h
  | text value => cases h
  | array items => cases h

theorem Accepted.identified {digests : Digests} {buildVariant : CodePoints}
    {entry : BuildConfiguration} (h : Accepted digests buildVariant entry) :
    Identified digests buildVariant entry := by
  obtain ⟨host, path, generatedSourceRoots, position, raw, rfl, hparse⟩ := h
  exact identified_of_parseEntry hparse

/-! ## Identities and words -/

section Identities

variable {digests : Digests} {buildVariant : CodePoints} {first second : BuildConfiguration}

theorem commandHash_eq_iff (hfirst : Identified digests buildVariant first)
    (hsecond : Identified digests buildVariant second) (hne : first ≠ second) :
    first.commandHash = second.commandHash ↔ Confusable first second := by
  rw [hfirst.commandHash, hsecond.commandHash, digests.hexdigest_injective.eq_iff, terminated_inj,
    words_identityBytes_eq_iff hne]

/-- A digest of the build and a name tells the name. -/
theorem terminated_pair_inj {buildBytes : Bytes} {name name' : String}
    (h : terminated 0 [buildBytes, utf8 name] = terminated 0 [buildBytes, utf8 name']) :
    name = name' := by
  have hname : utf8 name = utf8 name' := by
    simpa [terminated] using h
  have hdecoded := congrArg ofUtf8? hname
  rwa [ofUtf8?_utf8, ofUtf8?_utf8, Option.some_inj] at hdecoded

theorem id_eq_iff (hfirst : Identified digests buildVariant first)
    (hsecond : Identified digests buildVariant second) :
    first.id = second.id ↔ first.commandHash = second.commandHash := by
  obtain ⟨variantBytes, hvariant, hid⟩ := hfirst.id
  obtain ⟨variantBytes', hvariant', hid'⟩ := hsecond.id
  obtain rfl := Option.some.inj (hvariant.symm.trans hvariant')
  rw [hid, hid', String.append_right_inj, digests.shorten_injective.eq_iff,
    digests.hexdigest_injective.eq_iff]
  constructor
  · exact terminated_pair_inj
  · intro h
    rw [h]

theorem translationUnitId_eq (h : Identified digests buildVariant first) :
    ∃ variantBytes, buildVariant.encode = some variantBytes ∧ translationUnitId digests first =
      .ok ("tu_" ++ digests.shorten
        (digests.hexdigest (terminated 0 [variantBytes, utf8 first.id]))) := by
  obtain ⟨variantBytes, hvariant, -⟩ := h.id
  refine ⟨variantBytes, hvariant, ?_⟩
  unfold translationUnitId digest
  rw [h.variant]
  simp [hvariant, CodePoints.encode_ofString, bind, Except.bind, pure, Except.pure]

theorem translationUnitId_eq_iff (hfirst : Identified digests buildVariant first)
    (hsecond : Identified digests buildVariant second) :
    translationUnitId digests first = translationUnitId digests second ↔
      first.id = second.id := by
  obtain ⟨variantBytes, hvariant, hunit⟩ := translationUnitId_eq hfirst
  obtain ⟨variantBytes', hvariant', hunit'⟩ := translationUnitId_eq hsecond
  obtain rfl := Option.some.inj (hvariant.symm.trans hvariant')
  rw [hunit, hunit', Except.ok.injEq, String.append_right_inj, digests.shorten_injective.eq_iff,
    digests.hexdigest_injective.eq_iff]
  constructor
  · exact terminated_pair_inj
  · intro h
    rw [h]

end Identities

/-- The loop of `load` passes over an entry only when its name was seen. -/
theorem exists_id_of_dropped {earlier : List BuildConfiguration} {entry : BuildConfiguration}
    (h : keptConfigurations (earlier ++ [entry]) = keptConfigurations earlier) :
    ∃ other ∈ earlier, other.id = entry.id := by
  unfold keptConfigurations at h
  rw [foldl_keepFirst_nil, foldl_keepFirst_nil] at h
  have hkept : ∃ other ∈ firstPerKey BuildConfiguration.id (earlier ++ [entry]),
      other.id = entry.id :=
    exists_mem_firstPerKey (List.mem_append_right earlier (List.mem_singleton_self entry))
  obtain ⟨other, hother, hid⟩ := hkept
  rw [h] at hother
  exact ⟨other, (firstPerKey_sublist _ earlier).subset hother, hid⟩

/-- A stored state that a command finds is one of a unit with its name. -/
theorem needsReindex_of_unit_ne {digests : Digests} {request : IndexRequest}
    {indexed entry : BuildConfiguration} {state : TranslationUnitState}
    (h : translationUnitId digests indexed ≠ translationUnitId digests entry) :
    needsReindex request entry (stateAfter digests indexed entry state) = true := by
  rw [stateAfter, if_neg (Ne.symm h)]
  rfl

/-- What `load` returns are the kept ones of the entries it accepted. -/
theorem load_eq_kept {host : Host} {path : ResolvedPath} {buildVariant : CodePoints}
    {generatedSourceRoots : List ResolvedPath} {configurations : List BuildConfiguration}
    (h : load host path buildVariant generatedSourceRoots = .ok configurations) :
    ∃ entries, (∀ entry ∈ entries, Accepted host.digests buildVariant entry) ∧
      configurations = keptConfigurations entries := by
  unfold load at h
  obtain ⟨payload, -, hpayload⟩ := bind_eq_ok.mp h
  cases payload with
  | array items =>
      obtain ⟨-, -, hitems⟩ := bind_eq_ok.mp hpayload
      obtain ⟨entries, hentries, hkept⟩ := bind_eq_ok.mp hitems
      refine ⟨entries, ?_, (Except.ok.inj hkept).symm⟩
      intro entry hentry
      obtain ⟨item, hparse⟩ := exists_of_mem_results (mapM_ok_iff.mp hentries) hentry
      exact ⟨host, path, generatedSourceRoots, item.2, item.1, rfl, hparse⟩
  | null => cases hpayload
  | other => cases hpayload
  | text value => cases hpayload
  | object fields => cases hpayload

/-- Accepted entries of a build keep their identities exactly when no two are confusable. -/
theorem identityInjective_iff (digests : Digests) (buildVariant : CodePoints)
    (entries : List BuildConfiguration)
    (haccepted : ∀ entry ∈ entries, Accepted digests buildVariant entry) :
    IdentityInjective digests entries ↔
      ∀ first ∈ entries, ∀ second ∈ entries, ¬ Confusable first second := by
  constructor
  · intro h first hfirst second hsecond hconfusable
    have hsame := (commandHash_eq_iff (haccepted first hfirst).identified
      (haccepted second hsecond).identified hconfusable.differ).mpr hconfusable
    exact h.hashes first hfirst second hsecond hconfusable.differ hsame
  · intro h
    have hhashes : ∀ first ∈ entries, ∀ second ∈ entries, first ≠ second →
        first.commandHash ≠ second.commandHash := by
      intro first hfirst second hsecond hne hsame
      exact h first hfirst second hsecond ((commandHash_eq_iff (haccepted first hfirst).identified
        (haccepted second hsecond).identified hne).mp hsame)
    have hids : ∀ first ∈ entries, ∀ second ∈ entries, first ≠ second → first.id ≠ second.id := by
      intro first hfirst second hsecond hne hsame
      exact hhashes first hfirst second hsecond hne
        ((id_eq_iff (haccepted first hfirst).identified (haccepted second hsecond).identified).mp
          hsame)
    have hunits : ∀ first ∈ entries, ∀ second ∈ entries, first ≠ second →
        translationUnitId digests first ≠ translationUnitId digests second := by
      intro first hfirst second hsecond hne hsame
      exact hids first hfirst second hsecond hne
        ((translationUnitId_eq_iff (haccepted first hfirst).identified
          (haccepted second hsecond).identified).mp hsame)
    constructor
    · exact hhashes
    · exact hids
    · exact hunits
    · rintro earlier entry later rfl hdropped
      obtain ⟨other, hother, hid⟩ := exists_id_of_dropped hdropped
      have hsame : other = entry := by
        by_contra hne
        exact hids other (by simp [hother]) entry (by simp) hne hid
      exact hsame ▸ hother
    · intro indexed hindexed entry hentry hne request state hstate
      exact needsReindex_of_unit_ne (hunits indexed hindexed entry hentry hne)

/-! ## Two databases -/

/-- A path that the operating system accepts, without its links. -/
def ResolvedPath.of? (text : CodePoints) : Option ResolvedPath :=
  match hencoded : text.encode with
  | some bytes =>
      if h : bytes.head? = some 47 ∧ 0 ∉ bytes then some ⟨text, bytes, hencoded, h.1, h.2⟩ else none
  | none => none

theorem charOfByte_injective :
    Function.Injective fun byte : UInt8 => Char.ofNat byte.toNat := by
  have hbyte : ∀ n < 256, (Char.ofNat n).toNat = n := by decide +kernel
  intro first second h
  have hcode := congrArg Char.toNat h
  simp only [hbyte _ first.toNat_lt, hbyte _ second.toNat_lt] at hcode
  exact UInt8.toNat_inj.mp hcode

/-- A digest that writes the bytes out. -/
def plainDigests : Digests where
  hexdigest bytes := String.ofList (bytes.map fun byte => Char.ofNat byte.toNat)
  shorten text := text
  hexdigest_injective := by
    intro first second h
    exact List.map_injective_iff.mpr charOfByte_injective (String.ofList_injective h)
  shorten_injective := Function.injective_id

def rootPath : ResolvedPath := ⟨.ofString "/", [47], by decide, by decide, by decide⟩

/-- A host where every path that begins with a slash is a directory and a file. -/
def plainHost (payload : RawJson) : Host where
  digests := plainDigests
  readPayload _ := .ok payload
  parent _ := rootPath
  absolute text _ :=
    match ResolvedPath.of? text with
    | some path => .ok path
    | none => .error .resolve
  isDir _ := true
  isFile _ := true
  contains _ := true

def plainEntry (arguments : List String) : RawJson :=
  .object [(.ofString "directory", .text (.ofString "/p")),
    (.ofString "file", .text (.ofString "/p/a.cpp")),
    (.ofString "arguments", .array (arguments.map fun argument => .text (.ofString argument)))]

def parsedEntry (arguments : List String) : Option BuildConfiguration :=
  (parseEntry (plainHost .null) rootPath (.ofString "default") [] 0 (plainEntry arguments)).toOption

theorem accepted_of_parsed {arguments : List String} {entry : BuildConfiguration}
    (h : parsedEntry arguments = some entry) :
    Accepted plainDigests (.ofString "default") entry := by
  unfold parsedEntry at h
  cases hparse : parseEntry (plainHost .null) rootPath (.ofString "default") [] 0
      (plainEntry arguments) with
  | error error => simp [hparse, Except.toOption] at h
  | ok parsed =>
      obtain rfl : parsed = entry := by simpa [hparse, Except.toOption] using h
      exact ⟨plainHost .null, rootPath, [], 0, plainEntry arguments, rfl, hparse⟩

theorem identityInjective_optimised : ∃ first second, parsedEntry ["cc", "-O1"] = some first ∧
    parsedEntry ["cc", "-O2"] = some second ∧
      IdentityInjective plainDigests [first, second] := by
  have hparts : (parsedEntry ["cc", "-O1"]).map (fun entry => (argumentWords entry,
        rootBytes entry)) = some ([utf8 "cc", utf8 "-O1"], []) ∧
      (parsedEntry ["cc", "-O2"]).map (fun entry => (argumentWords entry, rootBytes entry)) =
        some ([utf8 "cc", utf8 "-O2"], []) := by
    decide +kernel
  obtain ⟨first, hfirst, hfirstParts⟩ := Option.map_eq_some_iff.mp hparts.1
  obtain ⟨second, hsecond, hsecondParts⟩ := Option.map_eq_some_iff.mp hparts.2
  obtain ⟨hfirstWords, hfirstRoots⟩ := Prod.mk.inj hfirstParts
  obtain ⟨hsecondWords, hsecondRoots⟩ := Prod.mk.inj hsecondParts
  have hroots : rootBytes first = rootBytes second := hfirstRoots.trans hsecondRoots.symm
  have hwords : argumentWords first ≠ argumentWords second := by
    rw [hfirstWords, hsecondWords]
    decide
  refine ⟨first, second, hfirst, hsecond, ?_⟩
  apply (identityInjective_iff plainDigests (.ofString "default") [first, second] _).mpr
  · have hirreflexive (entry : BuildConfiguration) : ¬ Confusable entry entry :=
      fun h => h.differ rfl
    simp [hirreflexive, not_confusable_of_words_ne hroots hwords,
      not_confusable_of_words_ne hroots.symm hwords.symm]
  · simp [accepted_of_parsed hfirst, accepted_of_parsed hsecond]

/-- A zero byte in an argument reads as the end of the argument. -/
theorem not_identityInjective_nul : ∃ first second,
    parsedEntry ["cc", "-c\x00-g"] = some first ∧ parsedEntry ["cc", "-c", "-g"] = some second ∧
      ¬ IdentityInjective plainDigests [first, second] := by
  have hsame : (parsedEntry ["cc", "-c\x00-g"]).map (·.commandHash) =
      (parsedEntry ["cc", "-c", "-g"]).map (·.commandHash) := by
    decide +kernel
  have hwords : (parsedEntry ["cc", "-c\x00-g"]).map (·.arguments.length) = some 2 ∧
      (parsedEntry ["cc", "-c", "-g"]).map (·.arguments.length) = some 3 := by
    decide +kernel
  obtain ⟨first, hfirst, hfirstLength⟩ := Option.map_eq_some_iff.mp hwords.1
  obtain ⟨second, hsecond, hsecondLength⟩ := Option.map_eq_some_iff.mp hwords.2
  refine ⟨first, second, hfirst, hsecond, ?_⟩
  intro h
  have hne : first ≠ second := by
    rintro rfl
    omega
  rw [hfirst, hsecond, Option.map_some, Option.map_some, Option.some_inj] at hsame
  exact h.hashes first (by simp) second (by simp) hne hsame

end CppContextEngine.Ingestion
