import CppContextEngine.Analyzer.SinkClashes

/-!
# What the sink loses

The sink loses nothing of a translation unit exactly when no two visits clash:
what a sort key leaves out is the same wherever the rest of the key is.
-/

namespace CppContextEngine.Analyzer.SinkKeys

open CppContextEngine.Foundation

section Unit

variable (sources : SourceManager) (unit : List Visit)

/-- Where the facts of a translation unit come from. -/
inductive Emits : Emission → Prop where
  | related {r : Relationship} {span : Span} {relation : Relation}
      (visited : .relationship r ∈ unit) (visible : span ∈ r.span sources)
      (edge : relation ∈ r.relation.edges) :
      Emits (.edge (.related relation r.source r.target r.range.first.expansion.offset span))
  | occurrence {r : Relationship} {span : Span} (visited : .relationship r ∈ unit)
      (visible : span ∈ r.span sources) :
      Emits (.occurrence (.related r.relation.occurrenceKind r.target r.source
        r.range.first.expansion.offset span))
  | declared {d : Declaration} {span : Span} {path : String} (visited : .declaration d ∈ unit)
      (visible : span ∈ d.span sources) (located : path ∈ d.path sources) :
      Emits (.occurrence (.declared d.key d.isDefinition (d.occurrencePath sources path)
        d.location.expansion.offset d.enclosing span))
  | contains {d : Declaration} {span : Span} {path : String} {container : SymbolKey}
      (visited : .declaration d ∈ unit) (visible : span ∈ d.span sources)
      (located : path ∈ d.path sources) (contained : container ∈ d.container sources path) :
      Emits (.edge (.contains container d.key))
  | macroDefined {m : MacroDefinition} {span : Span} (visited : .macroDefinition m ∈ unit)
      (visible : span ∈ m.span sources) : Emits (.occurrence (.macroDefined m.key span))
  | expansion {m : MacroExpansion} {usePath : String} {spans : Span × Span}
      (visited : .macroExpansion m ∈ unit) (used : usePath ∈ m.usePath sources)
      (visible : spans ∈ m.spans sources) :
      Emits (.expansion m.key usePath m.range.first.expansion.offset spans.1 spans.2)
  | inclusion {i : Inclusion} {paths : String × String} (visited : .inclusion i ∈ unit)
      (located : paths ∈ i.paths sources) :
      Emits (.inclusion (fileKey sources paths.1) (fileKey sources paths.2) paths.1 paths.2
        i.hash.expansion.offset (sources.span i.filenameRange true))
  | callsite {c : Call} {span : Span} (visited : .call c ∈ unit)
      (visible : span ∈ c.site.span sources) :
      Emits (.callsite c.site c.staticTarget (sources.span c.site.range true) span)
  | resolved {c : Call} {span : Span} {target : SymbolKey} (visited : .call c ∈ unit)
      (visible : span ∈ c.site.span sources) (resolved : target ∈ c.resolvedTarget) :
      Emits (.target (.resolved c.site target span))
  | generated {c : Call} {span : Span} {frame : SymbolKey} (visited : .call c ∈ unit)
      (visible : span ∈ c.site.span sources) (expanded : frame ∈ c.frames) :
      Emits (.edge (.generatedByMacro c.site.owner frame c.site.range.first.expansion.offset span))
  | dataFlow {c : IndirectCall} {span : Span} {target : SymbolKey}
      (visited : .indirectCall c ∈ unit) (visible : span ∈ c.site.span sources)
      (possible : target ∈ c.targets) : Emits (.target (.dataFlow c.site target span))
  | argumentBinding {c : SummaryCall} {index : Nat} {storage : Storage}
      (visited : .summaryCall c ∈ unit) (bound : c.arguments[index]? = some storage) :
      Emits (.argumentBinding c.site index storage)
  | resultBinding {c : SummaryCall} {result : String × String}
      (visited : .summaryCall c ∈ unit) (bound : result ∈ c.result) :
      Emits (.resultBinding c.site result.1 result.2)

variable {sources unit}

theorem mem_emissions_iff {emission : Emission} :
    emission ∈ emissions sources unit ↔ Emits sources unit emission := by
  constructor
  · intro h
    obtain ⟨visit, hvisit, h⟩ := List.mem_flatMap.mp h
    cases visit with
    | relationship r =>
        simp only [emit, emitRelationship, List.mem_flatMap, Option.mem_toList, List.mem_append,
          List.mem_map, List.mem_singleton] at h
        rcases h with ⟨span, hspan, ⟨relation, hrelation, rfl⟩ | rfl⟩
        · exact .related hvisit hspan hrelation
        · exact .occurrence hvisit hspan
    | declaration d =>
        simp only [emit, emitSymbol, List.mem_flatMap, Option.mem_toList, List.mem_cons,
          List.mem_map] at h
        rcases h with ⟨span, hspan, path, hpath, rfl | ⟨container, hcontainer, rfl⟩⟩
        · exact .declared hvisit hspan hpath
        · exact .contains hvisit hspan hpath hcontainer
    | macroDefinition m =>
        simp only [emit, macroDefined, List.mem_map, Option.mem_toList] at h
        obtain ⟨span, hspan, rfl⟩ := h
        exact .macroDefined hvisit hspan
    | macroExpansion m =>
        simp only [emit, macroExpands, List.mem_flatMap, List.mem_map, Option.mem_toList] at h
        obtain ⟨usePath, husePath, spans, hspans, rfl⟩ := h
        exact .expansion hvisit husePath hspans
    | inclusion i =>
        simp only [emit, inclusionDirective, List.mem_map, Option.mem_toList] at h
        obtain ⟨paths, hpaths, rfl⟩ := h
        exact .inclusion hvisit hpaths
    | call c =>
        simp only [emit, emitResolvedCallsite, List.mem_flatMap, Option.mem_toList,
          List.mem_cons, List.mem_append, List.mem_map, List.cons_append] at h
        rcases h with ⟨span, hspan, rfl | ⟨target, htarget, rfl⟩ | ⟨frame, hframe, rfl⟩⟩
        · exact .callsite hvisit hspan
        · exact .resolved hvisit hspan htarget
        · exact .generated hvisit hspan hframe
    | indirectCall c =>
        simp only [emit, emitIndirectTargets, List.mem_flatMap, Option.mem_toList,
          List.mem_map] at h
        obtain ⟨span, hspan, target, htarget, rfl⟩ := h
        exact .dataFlow hvisit hspan htarget
    | summaryCall c =>
        simp only [emit, emitCallBindings, List.mem_append, List.mem_map, Option.mem_toList] at h
        rcases h with ⟨argument, hargument, rfl⟩ | ⟨result, hresult, rfl⟩
        · exact .argumentBinding hvisit (List.mem_zipIdx_iff_getElem?.mp hargument)
        · exact .resultBinding hvisit hresult
  · intro h
    refine List.mem_flatMap.mpr ?_
    cases h with
    | related visited visible edge =>
        exact ⟨_, visited, by simp_all [emit, emitRelationship]⟩
    | occurrence visited visible => exact ⟨_, visited, by simp_all [emit, emitRelationship]⟩
    | declared visited visible located => exact ⟨_, visited, by simp_all [emit, emitSymbol]⟩
    | contains visited visible located contained =>
        exact ⟨_, visited, by simp_all [emit, emitSymbol]⟩
    | macroDefined visited visible => exact ⟨_, visited, by simp_all [emit, macroDefined]⟩
    | expansion visited used visible => exact ⟨_, visited, by simp_all [emit, macroExpands]⟩
    | inclusion visited located => exact ⟨_, visited, by simp_all [emit, inclusionDirective]⟩
    | callsite visited visible => exact ⟨_, visited, by simp_all [emit, emitResolvedCallsite]⟩
    | resolved visited visible resolved =>
        exact ⟨_, visited, by simp_all [emit, emitResolvedCallsite]⟩
    | generated visited visible expanded =>
        exact ⟨_, visited, by simp_all [emit, emitResolvedCallsite]⟩
    | dataFlow visited visible possible =>
        exact ⟨_, visited, by simp_all [emit, emitIndirectTargets]⟩
    | argumentBinding visited bound =>
        exact ⟨_, visited, by simp_all [emit, emitCallBindings, List.mem_zipIdx_iff_getElem?]⟩
    | resultBinding visited bound => exact ⟨_, visited, by simp_all [emit, emitCallBindings]⟩

/-! ## Clashes -/

variable (sources unit)

/-- Nothing that a sort key leaves out tells two visits apart.  The relationships with one
begin offset, the callsites with the same coordinates and so on are of one file, end on one
line and belong to one symbol. -/
structure NoClash : Prop where
  relatedEdges : ∀ r r' : Relationship, .relationship r ∈ unit → .relationship r' ∈ unit →
    ∀ span ∈ r.span sources, ∀ span' ∈ r'.span sources,
      (∃ relation ∈ r.relation.edges, relation ∈ r'.relation.edges) →
      joined r.source.text r.target.text = joined r'.source.text r'.target.text →
      r.range.first.expansion.offset = r'.range.first.expansion.offset →
      r.source = r'.source ∧ r.target = r'.target ∧ span.place = span'.place
  occurrences : ∀ r r' : Relationship, .relationship r ∈ unit → .relationship r' ∈ unit →
    ∀ span ∈ r.span sources, ∀ span' ∈ r'.span sources,
      r.relation.occurrenceKind = r'.relation.occurrenceKind → r.target = r'.target →
      r.range.first.expansion.offset = r'.range.first.expansion.offset →
      r.source = r'.source ∧ span.place = span'.place
  declarations : ∀ d d' : Declaration, .declaration d ∈ unit → .declaration d' ∈ unit →
    ∀ span ∈ d.span sources, ∀ span' ∈ d'.span sources,
    ∀ path ∈ d.path sources, ∀ path' ∈ d'.path sources,
      joined d.key.text (joined (declarationKind d.isDefinition) (d.occurrencePath sources path)) =
        joined d'.key.text
          (joined (declarationKind d'.isDefinition) (d'.occurrencePath sources path')) →
      d.location.expansion.offset = d'.location.expansion.offset →
      d.key = d'.key ∧ d.isDefinition = d'.isDefinition ∧ d.enclosing = d'.enclosing ∧
        span.place = span'.place
  containers : ∀ d d' : Declaration, .declaration d ∈ unit → .declaration d' ∈ unit →
    (d.span sources).isSome → (d'.span sources).isSome →
    ∀ path ∈ d.path sources, ∀ path' ∈ d'.path sources,
    ∀ container ∈ d.container sources path, ∀ container' ∈ d'.container sources path',
      joined container.text d.key.text = joined container'.text d'.key.text →
      container = container' ∧ d.key = d'.key
  macroDefinitions : ∀ m m' : MacroDefinition,
    .macroDefinition m ∈ unit → .macroDefinition m' ∈ unit →
    ∀ span ∈ m.span sources, ∀ span' ∈ m'.span sources, m.key = m'.key →
      span.place = span'.place
  macrosApart : ∀ (d : Declaration) (m : MacroDefinition),
    .declaration d ∈ unit → .macroDefinition m ∈ unit →
    (d.span sources).isSome → (m.span sources).isSome → ∀ path ∈ d.path sources,
      joined d.key.text (joined (declarationKind d.isDefinition) (d.occurrencePath sources path)) ++
        ":" ++ toString d.location.expansion.offset ≠ m.key.text
  macroExpansions : ∀ m m' : MacroExpansion,
    .macroExpansion m ∈ unit → .macroExpansion m' ∈ unit →
    ∀ usePath ∈ m.usePath sources, ∀ usePath' ∈ m'.usePath sources,
    ∀ spans ∈ m.spans sources, ∀ spans' ∈ m'.spans sources,
      joined m.key.text usePath = joined m'.key.text usePath' →
      m.range.first.expansion.offset = m'.range.first.expansion.offset →
      m.key = m'.key ∧ spans.1.place = spans'.1.place ∧ spans.2.place = spans'.2.place
  inclusions : ∀ i i' : Inclusion, .inclusion i ∈ unit → .inclusion i' ∈ unit →
    ∀ paths ∈ i.paths sources, ∀ paths' ∈ i'.paths sources,
      joined paths.1 paths.2 = joined paths'.1 paths'.2 →
      i.hash.expansion.offset = i'.hash.expansion.offset →
      fileKey sources paths.1 = fileKey sources paths'.1 ∧
        fileKey sources paths.2 = fileKey sources paths'.2 ∧
        (sources.span i.filenameRange true).map Span.place =
          (sources.span i'.filenameRange true).map Span.place
  callsites : ∀ c c' : Call, .call c ∈ unit → .call c' ∈ unit →
    ∀ span ∈ c.site.span sources, ∀ span' ∈ c'.site.span sources, c.site.Alike c'.site →
      c.staticTarget = c'.staticTarget ∧ span.place = span'.place ∧
        (sources.span c.site.range true).map Span.place =
          (sources.span c'.site.range true).map Span.place
  targets : ∀ c c' : Call, .call c ∈ unit → .call c' ∈ unit →
    ∀ span ∈ c.site.span sources, ∀ span' ∈ c'.site.span sources,
    ∀ target ∈ c.resolvedTarget, ∀ target' ∈ c'.resolvedTarget,
      joined c.site.coordinates target.text = joined c'.site.coordinates target'.text →
      c.site.Alike c'.site ∧ target = target' ∧ span.place = span'.place
  frames : ∀ c c' : Call, .call c ∈ unit → .call c' ∈ unit →
    ∀ span ∈ c.site.span sources, ∀ span' ∈ c'.site.span sources,
    ∀ frame ∈ c.frames, ∀ frame' ∈ c'.frames,
      joined c.site.owner.text frame.text = joined c'.site.owner.text frame'.text →
      c.site.range.first.expansion.offset = c'.site.range.first.expansion.offset →
      c.site.owner = c'.site.owner ∧ frame = frame' ∧ span.place = span'.place
  indirectTargets : ∀ c c' : IndirectCall,
    .indirectCall c ∈ unit → .indirectCall c' ∈ unit →
    ∀ span ∈ c.site.span sources, ∀ span' ∈ c'.site.span sources,
    ∀ target ∈ c.targets, ∀ target' ∈ c'.targets,
      joined c.site.coordinates target.text = joined c'.site.coordinates target'.text →
      c.site.Alike c'.site ∧ target = target' ∧ span.place = span'.place
  arguments : ∀ c c' : SummaryCall, .summaryCall c ∈ unit → .summaryCall c' ∈ unit →
    c.site.Alike c'.site →
    ∀ (index : Nat) (storage storage' : Storage), c.arguments[index]? = some storage →
      c'.arguments[index]? = some storage' → storage = storage'
  results : ∀ c c' : SummaryCall, .summaryCall c ∈ unit → .summaryCall c' ∈ unit →
    c.site.Alike c'.site →
    ∀ result ∈ c.result, ∀ result' ∈ c'.result, result = result'

/-- What the visits find reaches the output, and equal sort keys mean equal facts. -/
structure Lossless : Prop where
  equal : ∀ emission ∈ emissions sources unit, ∀ emission' ∈ emissions sources unit,
    emission.sortKey = emission'.sortKey → emission.content = emission'.content
  kept : ∀ emission ∈ emissions sources unit,
    ∃ kept ∈ firstPerKey Emission.sortKey (emissions sources unit),
      kept.content = emission.content

variable {sources unit}

namespace NoClash

variable (h : NoClash sources unit)
include h

theorem agree_edge {edge edge' : EdgeEmission} (he : Emits sources unit (.edge edge))
    (he' : Emits sources unit (.edge edge')) : (Emission.edge edge).Agree (.edge edge') := by
  have hrelation : ∀ relation : Relation,
      relation.name ≠ "contains" ∧ relation.name ≠ "generated_by_macro" := by
    intro relation
    cases relation <;> decide
  cases he with
  | related visited visible edge =>
      cases he' with
      | related visited' visible' edge' =>
          rw [agree_related_iff]
          rintro rfl
          exact h.relatedEdges _ _ visited visited' _ visible _ visible' ⟨_, edge, edge'⟩
      | contains => exact agree_edge_of_word_ne (hrelation _).1
      | generated => exact agree_edge_of_word_ne (hrelation _).2
  | contains visited visible located contained =>
      cases he' with
      | related => exact agree_edge_of_word_ne (hrelation _).1.symm
      | contains visited' visible' located' contained' =>
          rw [agree_contains_iff]
          exact h.containers _ _ visited visited' (Option.isSome_of_mem visible)
            (Option.isSome_of_mem visible') _ located _ located' _ contained _ contained'
      | generated => exact agree_edge_of_word_ne (by simp [EdgeEmission.word])
  | generated visited visible expanded =>
      cases he' with
      | related => exact agree_edge_of_word_ne (hrelation _).2.symm
      | contains => exact agree_edge_of_word_ne (by simp [EdgeEmission.word])
      | generated visited' visible' expanded' =>
          rw [agree_generated_iff]
          exact h.frames _ _ visited visited' _ visible _ visible' _ expanded _ expanded'

theorem agree_occurrence {occurrence occurrence' : OccurrenceEmission}
    (he : Emits sources unit (.occurrence occurrence))
    (he' : Emits sources unit (.occurrence occurrence')) :
    (Emission.occurrence occurrence).Agree (.occurrence occurrence') := by
  cases he with
  | occurrence visited visible =>
      cases he' with
      | occurrence visited' visible' =>
          rw [agree_occurrence_iff]
          exact h.occurrences _ _ visited visited' _ visible _ visible'
      | declared => exact agree_occurrence_declared
      | macroDefined => exact agree_occurrence_macroDefined
  | declared visited visible located =>
      cases he' with
      | occurrence => exact agree_occurrence_declared.symm
      | declared visited' visible' located' =>
          rw [agree_declared_iff]
          exact h.declarations _ _ visited visited' _ visible _ visible' _ located _ located'
      | macroDefined visited' visible' =>
          rw [agree_declared_macroDefined_iff]
          exact h.macrosApart _ _ visited visited' (Option.isSome_of_mem visible)
            (Option.isSome_of_mem visible') _ located
  | macroDefined visited visible =>
      cases he' with
      | occurrence => exact agree_occurrence_macroDefined.symm
      | declared visited' visible' located' =>
          refine Emission.Agree.symm ?_
          rw [agree_declared_macroDefined_iff]
          exact h.macrosApart _ _ visited' visited (Option.isSome_of_mem visible')
            (Option.isSome_of_mem visible) _ located'
      | macroDefined visited' visible' =>
          rw [agree_macroDefined_iff]
          exact h.macroDefinitions _ _ visited visited' _ visible _ visible'

theorem agree_target {target target' : TargetEmission}
    (he : Emits sources unit (.target target)) (he' : Emits sources unit (.target target')) :
    (Emission.target target).Agree (.target target') := by
  cases he with
  | resolved visited visible resolved =>
      cases he' with
      | resolved visited' visible' resolved' =>
          rw [agree_resolved_iff]
          exact h.targets _ _ visited visited' _ visible _ visible' _ resolved _ resolved'
      | dataFlow => exact agree_resolved_dataFlow
  | dataFlow visited visible possible =>
      cases he' with
      | resolved => exact agree_resolved_dataFlow.symm
      | dataFlow visited' visible' possible' =>
          rw [agree_dataFlow_iff]
          exact h.indirectTargets _ _ visited visited' _ visible _ visible' _ possible _ possible'

/-- Facts of different words never share a sort key, so each word is looked at alone. -/
theorem agree {emission emission' : Emission} (he : Emits sources unit emission)
    (he' : Emits sources unit emission') : emission.Agree emission' := by
  cases emission with
  | edge edge =>
      cases emission' with
      | edge edge' => exact h.agree_edge he he'
      | _ => exact Emission.agree_of_word_ne (by simp [Emission.word])
  | occurrence occurrence =>
      cases emission' with
      | occurrence occurrence' => exact h.agree_occurrence he he'
      | _ => exact Emission.agree_of_word_ne (by simp [Emission.word])
  | expansion key usePath evidence spelling span =>
      cases emission' with
      | expansion key' usePath' evidence' spelling' span' =>
          cases he with
          | expansion visited used visible =>
              cases he' with
              | expansion visited' used' visible' =>
                  rw [agree_expansion_iff]
                  exact h.macroExpansions _ _ visited visited' _ used _ used' _ visible _ visible'
      | _ => exact Emission.agree_of_word_ne (by simp [Emission.word])
  | inclusion source target path included evidence span =>
      cases emission' with
      | inclusion source' target' path' included' evidence' span' =>
          cases he with
          | inclusion visited located =>
              cases he' with
              | inclusion visited' located' =>
                  rw [agree_inclusion_iff]
                  exact h.inclusions _ _ visited visited' _ located _ located'
      | _ => exact Emission.agree_of_word_ne (by simp [Emission.word])
  | callsite site staticTarget spelling span =>
      cases emission' with
      | callsite site' staticTarget' spelling' span' =>
          cases he with
          | callsite visited visible =>
              cases he' with
              | callsite visited' visible' =>
                  rw [agree_callsite_iff]
                  exact h.callsites _ _ visited visited' _ visible _ visible'
      | _ => exact Emission.agree_of_word_ne (by simp [Emission.word])
  | target target =>
      cases emission' with
      | target target' => exact h.agree_target he he'
      | _ => exact Emission.agree_of_word_ne (by simp [Emission.word])
  | argumentBinding site index storage =>
      cases emission' with
      | argumentBinding site' index' storage' =>
          cases he with
          | argumentBinding visited bound =>
              cases he' with
              | argumentBinding visited' bound' =>
                  rw [agree_argumentBinding_iff]
                  rintro halike rfl
                  exact h.arguments _ _ visited visited' halike _ _ _ bound bound'
      | _ => exact Emission.agree_of_word_ne (by simp [Emission.word])
  | resultBinding site location definition =>
      cases emission' with
      | resultBinding site' location' definition' =>
          cases he with
          | resultBinding visited bound =>
              cases he' with
              | resultBinding visited' bound' =>
                  rw [agree_resultBinding_iff]
                  intro halike
                  have hsame := h.results _ _ visited visited' halike _ bound _ bound'
                  simp [hsame]
      | _ => exact Emission.agree_of_word_ne (by simp [Emission.word])

end NoClash

/-- Each clash is between two facts that the visits do hand to the sink. -/
theorem NoClash.of_agree (hagree : ∀ {emission emission' : Emission},
    Emits sources unit emission → Emits sources unit emission' → emission.Agree emission') :
    NoClash sources unit where
  relatedEdges r r' hr hr' span hspan span' hspan' := by
    rintro ⟨relation, hedge, hedge'⟩
    exact agree_related_iff.mp (hagree (.related hr hspan hedge) (.related hr' hspan' hedge')) rfl
  occurrences r r' hr hr' span hspan span' hspan' :=
    agree_occurrence_iff.mp (hagree (.occurrence hr hspan) (.occurrence hr' hspan'))
  declarations d d' hd hd' span hspan span' hspan' path hpath path' hpath' :=
    agree_declared_iff.mp (hagree (.declared hd hspan hpath) (.declared hd' hspan' hpath'))
  containers d d' hd hd' hspan hspan' path hpath path' hpath' container hcontainer container'
      hcontainer' := by
    obtain ⟨span, hspan⟩ := Option.isSome_iff_exists.mp hspan
    obtain ⟨span', hspan'⟩ := Option.isSome_iff_exists.mp hspan'
    exact agree_contains_iff.mp
      (hagree (.contains hd hspan hpath hcontainer) (.contains hd' hspan' hpath' hcontainer'))
  macroDefinitions m m' hm hm' span hspan span' hspan' :=
    agree_macroDefined_iff.mp (hagree (.macroDefined hm hspan) (.macroDefined hm' hspan'))
  macrosApart d m hd hm hspan hspan' path hpath := by
    obtain ⟨span, hspan⟩ := Option.isSome_iff_exists.mp hspan
    obtain ⟨span', hspan'⟩ := Option.isSome_iff_exists.mp hspan'
    exact agree_declared_macroDefined_iff.mp
      (hagree (.declared hd hspan hpath) (.macroDefined hm hspan'))
  macroExpansions m m' hm hm' usePath huse usePath' huse' spans hspans spans' hspans' :=
    agree_expansion_iff.mp (hagree (.expansion hm huse hspans) (.expansion hm' huse' hspans'))
  inclusions i i' hi hi' paths hpaths paths' hpaths' :=
    agree_inclusion_iff.mp (hagree (.inclusion hi hpaths) (.inclusion hi' hpaths'))
  callsites c c' hc hc' span hspan span' hspan' :=
    agree_callsite_iff.mp (hagree (.callsite hc hspan) (.callsite hc' hspan'))
  targets c c' hc hc' span hspan span' hspan' target htarget target' htarget' :=
    agree_resolved_iff.mp (hagree (.resolved hc hspan htarget) (.resolved hc' hspan' htarget'))
  frames c c' hc hc' span hspan span' hspan' frame hframe frame' hframe' :=
    agree_generated_iff.mp (hagree (.generated hc hspan hframe) (.generated hc' hspan' hframe'))
  indirectTargets c c' hc hc' span hspan span' hspan' target htarget target' htarget' :=
    agree_dataFlow_iff.mp (hagree (.dataFlow hc hspan htarget) (.dataFlow hc' hspan' htarget'))
  arguments c c' hc hc' halike index storage storage' hbound hbound' :=
    agree_argumentBinding_iff.mp
      (hagree (.argumentBinding hc hbound) (.argumentBinding hc' hbound')) halike rfl
  results c c' hc hc' halike result hresult result' hresult' := by
    have hsame := agree_resultBinding_iff.mp
      (hagree (.resultBinding hc hresult) (.resultBinding hc' hresult')) halike
    exact Prod.ext hsame.1 hsame.2

theorem Lossless.of_equal (hequal : ∀ emission ∈ emissions sources unit,
    ∀ emission' ∈ emissions sources unit, emission.sortKey = emission'.sortKey →
      emission.content = emission'.content) : Lossless sources unit where
  equal := hequal
  kept _ hemission := exists_mem_firstPerKey_of_agree hequal hemission

/-- The sink loses nothing of a translation unit exactly when its visits do not clash. -/
theorem lossless_iff : Lossless sources unit ↔ NoClash sources unit := by
  constructor
  · intro h
    apply NoClash.of_agree
    intro emission emission' he he'
    exact h.equal _ (mem_emissions_iff.mpr he) _ (mem_emissions_iff.mpr he')
  · intro h
    apply Lossless.of_equal
    intro emission he emission' he'
    exact h.agree (mem_emissions_iff.mp he) (mem_emissions_iff.mp he')

end Unit

section Headers

/-- `a.h` with `inline int a() { return g(); }` and `b.h` with the same text and `b` in place
of `a`; `g` is declared in `g.h`. -/
def headers : SourceManager where
  path file := ["/p/main.cpp", "/p/g.h", "/p/a.h", "/p/b.h"][file]?
  relativePath path :=
    [("/p/main.cpp", "main.cpp"), ("/p/g.h", "g.h"), ("/p/a.h", "a.h"), ("/p/b.h", "b.h")].lookup
      path
  line _ := 1
  column position := position.offset + 1
  tokenEnd position := some ⟨position.file, position.offset + 1⟩
  fileCharRange _ := none
  contiguousSpelling _ := true

/-- The call of `g` in one of the headers. -/
def headerCall (file : Nat) (caller : String) : Relationship where
  source := .usr caller
  target := .usr "c:@F@g#"
  relation := .calls
  range := ⟨.written file 24, .written file 26⟩

def headerVisits : List Visit :=
  [.relationship (headerCall 2 "c:@F@a#"), .relationship (headerCall 3 "c:@F@b#")]

/-- Both calls stand at one offset, so the sink drops the occurrence in the second header. -/
theorem headers_lose_occurrence : ¬ Lossless headers headerVisits := by
  intro h
  have hfirst : Emits headers headerVisits (.occurrence (.related .call (.usr "c:@F@g#")
      (.usr "c:@F@a#") 24 ⟨"/p/a.h", 1, 25, 1, 28⟩)) :=
    .occurrence (r := headerCall 2 "c:@F@a#") (by simp [headerVisits]) (by decide)
  have hsecond : Emits headers headerVisits (.occurrence (.related .call (.usr "c:@F@g#")
      (.usr "c:@F@b#") 24 ⟨"/p/b.h", 1, 25, 1, 28⟩)) :=
    .occurrence (r := headerCall 3 "c:@F@b#") (by simp [headerVisits]) (by decide)
  have hsame := h.equal _ (mem_emissions_iff.mpr hfirst) _ (mem_emissions_iff.mpr hsecond) rfl
  exact absurd hsame (by decide)

end Headers

end CppContextEngine.Analyzer.SinkKeys
