import CppContextEngine.Analyzer.SinkKeys

/-!
# When sort keys tell facts apart

A sort key that leaves out a file, a symbol or the end of a range is shared by
facts that differ there, and the sink drops all but the first of them.  For each
pair of places that emit facts, the positions and keys on which they clash.
-/

namespace CppContextEngine.Analyzer.SinkKeys

open CppContextEngine.Foundation

/-! ## What a sort key says -/

theorem Emission.colon_notMem_word (emission : Emission) : ':' ∉ emission.word.toList := by
  cases emission <;> simp only [word] <;> decide

theorem Emission.sortKey_inj {emission emission' : Emission} :
    emission.sortKey = emission'.sortKey ↔
      emission.word = emission'.word ∧ emission.rest = emission'.rest := by
  constructor
  · exact append_colon_inj_of_first emission.colon_notMem_word emission'.colon_notMem_word
  · rintro ⟨hword, hrest⟩
    unfold sortKey
    rw [hword, hrest]

theorem Relation.name_injective : Function.Injective Relation.name := by
  intro relation relation' h
  cases relation <;> cases relation' <;> first | rfl | exact absurd h (by decide)

theorem OccurrenceKind.name_injective : Function.Injective OccurrenceKind.name := by
  intro kind kind' h
  cases kind <;> cases kind' <;> first | rfl | exact absurd h (by decide)

theorem EdgeEmission.colon_notMem_word (edge : EdgeEmission) : ':' ∉ edge.word.toList := by
  cases edge with
  | related relation => cases relation <;> simp only [word, Relation.name] <;> decide
  | contains => simp only [word]; decide
  | generatedByMacro => simp only [word]; decide

/-- The relation is the first word of an edge's key. -/
theorem EdgeEmission.sortKey_inj {edge edge' : EdgeEmission} :
    (Emission.edge edge).sortKey = (Emission.edge edge').sortKey ↔
      edge.word = edge'.word ∧ edge.rest = edge'.rest := by
  rw [Emission.sortKey_inj]
  constructor
  · rintro ⟨-, hrest⟩
    exact append_colon_inj_of_first edge.colon_notMem_word edge'.colon_notMem_word hrest
  · rintro ⟨hword, hrest⟩
    simp [Emission.word, Emission.rest, hword, hrest]

theorem OccurrenceKind.colon_notMem_name (kind : OccurrenceKind) : ':' ∉ kind.name.toList := by
  cases kind <;> decide

/-- Nothing that begins with a symbol key is the key of a related occurrence. -/
theorem SymbolKey.text_append_ne (key : SymbolKey) (suffix : String) (kind : OccurrenceKind)
    (rest : String) : key.text ++ suffix ≠ kind.name ++ ":" ++ rest := by
  obtain ⟨word, hword, tail, htext⟩ := key.word
  have hcolon : ∀ word ∈ keyWords, ':' ∉ word.toList := by decide
  have hapart : ∀ word ∈ keyWords, word ≠ kind.name := by cases kind <;> decide
  rw [htext, @String.append_assoc (word ++ ":")]
  intro h
  exact hapart word hword
    (append_colon_inj_of_first (hcolon word hword) kind.colon_notMem_name h).1

theorem declarationKind_injective : Function.Injective declarationKind := by
  intro isDefinition isDefinition' h
  cases isDefinition <;> cases isDefinition' <;> first | rfl | exact absurd h (by decide)

namespace CallSite

/-- Two callsites with the same coordinates. -/
def Alike (site site' : CallSite) : Prop :=
  site.owner = site'.owner ∧ site.stmtClass = site'.stmtClass ∧
    site.range.first.spelling.offset = site'.range.first.spelling.offset ∧
    site.range.first.expansion.offset = site'.range.first.expansion.offset ∧
    site.range.last.expansion.offset = site'.range.last.expansion.offset

theorem coordinates_inj {site site' : CallSite} :
    site.coordinates = site'.coordinates ↔ site.Alike site' := by
  obtain ⟨owner, ⟨name, hname⟩, range⟩ := site
  obtain ⟨owner', ⟨name', hname'⟩, range'⟩ := site'
  simp only [coordinates, Alike, append_colon_nat_inj, StmtClass.mk.injEq]
  constructor
  · rintro ⟨⟨⟨h, hspelled⟩, hexpanded⟩, hlast⟩
    obtain ⟨howner, rfl⟩ := append_colon_inj_of_last hname hname' h
    exact ⟨SymbolKey.ext howner, rfl, hspelled, hexpanded, hlast⟩
  · rintro ⟨rfl, rfl, hspelled, hexpanded, hlast⟩
    exact ⟨⟨⟨rfl, hspelled⟩, hexpanded⟩, hlast⟩

theorem key_inj {site site' : CallSite} : site.key = site'.key ↔ site.Alike site' := by
  unfold key
  rw [String.append_right_inj, coordinates_inj]

theorem joined_key_inj {site site' : CallSite} {target target' : String} :
    joined site.key target = joined site'.key target' ↔
      joined site.coordinates target = joined site'.coordinates target' := by
  simp only [joined, key, String.append_assoc, String.append_right_inj]

end CallSite

/-! ## Facts of one key -/

/-- Two emissions that show the same fact if they share their sort key. -/
def Emission.Agree (emission emission' : Emission) : Prop :=
  emission.sortKey = emission'.sortKey → emission.content = emission'.content

theorem Emission.Agree.symm {emission emission' : Emission} (h : emission.Agree emission') :
    emission'.Agree emission := fun hkey => (h hkey.symm).symm

theorem Emission.agree_of_word_ne {emission emission' : Emission}
    (h : emission.word ≠ emission'.word) : emission.Agree emission' := by
  intro hkey
  exact absurd (Emission.sortKey_inj.mp hkey).1 h

section Agreement

variable {source source' target target' key key' : SymbolKey} {span span' : Span}
  {evidence evidence' : Nat}

theorem agree_related_iff {relation relation' : Relation} :
    (Emission.edge (.related relation source target evidence span)).Agree
        (.edge (.related relation' source' target' evidence' span')) ↔
      (relation = relation' → joined source.text target.text = joined source'.text target'.text →
        evidence = evidence' → source = source' ∧ target = target' ∧ span.place = span'.place) := by
  simp only [Emission.Agree, EdgeEmission.sortKey_inj, EdgeEmission.word, EdgeEmission.rest,
    append_colon_nat_inj, Emission.content, EdgeEmission.content, Content.edge.injEq,
    Option.some.injEq, Relation.name_injective.eq_iff, SymbolKey.ext_iff]
  tauto

theorem agree_contains_iff {container container' : SymbolKey} :
    (Emission.edge (.contains container key)).Agree (.edge (.contains container' key')) ↔
      (joined container.text key.text = joined container'.text key'.text →
        container = container' ∧ key = key') := by
  simp only [Emission.Agree, EdgeEmission.sortKey_inj, EdgeEmission.word, EdgeEmission.rest,
    Emission.content, EdgeEmission.content, Content.edge.injEq, SymbolKey.ext_iff]
  tauto

theorem agree_generated_iff {frame frame' : SymbolKey} :
    (Emission.edge (.generatedByMacro source frame evidence span)).Agree
        (.edge (.generatedByMacro source' frame' evidence' span')) ↔
      (joined source.text frame.text = joined source'.text frame'.text → evidence = evidence' →
        source = source' ∧ frame = frame' ∧ span.place = span'.place) := by
  simp only [Emission.Agree, EdgeEmission.sortKey_inj, EdgeEmission.word, EdgeEmission.rest,
    append_colon_nat_inj, Emission.content, EdgeEmission.content, Content.edge.injEq,
    Option.some.injEq, SymbolKey.ext_iff]
  tauto

theorem agree_edge_of_word_ne {edge edge' : EdgeEmission} (h : edge.word ≠ edge'.word) :
    (Emission.edge edge).Agree (.edge edge') := by
  intro hkey
  exact absurd (EdgeEmission.sortKey_inj.mp hkey).1 h

theorem occurrence_sortKey_inj {occurrence occurrence' : OccurrenceEmission} :
    (Emission.occurrence occurrence).sortKey = (Emission.occurrence occurrence').sortKey ↔
      occurrence.rest = occurrence'.rest := by
  simp [Emission.sortKey_inj, Emission.word, Emission.rest]

theorem agree_occurrence_iff {kind kind' : OccurrenceKind} :
    (Emission.occurrence (.related kind target source evidence span)).Agree
        (.occurrence (.related kind' target' source' evidence' span')) ↔
      (kind = kind' → target = target' → evidence = evidence' →
        source = source' ∧ span.place = span'.place) := by
  have hrest : (OccurrenceEmission.related kind target source evidence span).rest =
        (OccurrenceEmission.related kind' target' source' evidence' span').rest ↔
      kind = kind' ∧ target = target' ∧ evidence = evidence' := by
    constructor
    · intro h
      obtain ⟨hkind, hlast⟩ := 
        append_colon_inj_of_first kind.colon_notMem_name kind'.colon_notMem_name h
      rw [append_colon_nat_inj] at hlast
      exact ⟨OccurrenceKind.name_injective hkind, SymbolKey.ext hlast.1, hlast.2⟩
    · rintro ⟨rfl, rfl, rfl⟩
      rfl
  simp only [Emission.Agree, occurrence_sortKey_inj, hrest, Emission.content,
    OccurrenceEmission.content, Content.occurrence.injEq, Option.some.injEq,
    OccurrenceKind.name_injective.eq_iff, SymbolKey.ext_iff]
  tauto

theorem agree_declared_iff {isDefinition isDefinition' : Bool} {path path' : String}
    {enclosing enclosing' : Option SymbolKey} :
    (Emission.occurrence (.declared key isDefinition path evidence enclosing span)).Agree
        (.occurrence (.declared key' isDefinition' path' evidence' enclosing' span')) ↔
      (joined key.text (joined (declarationKind isDefinition) path) =
          joined key'.text (joined (declarationKind isDefinition') path') →
        evidence = evidence' →
        key = key' ∧ isDefinition = isDefinition' ∧ enclosing = enclosing' ∧
          span.place = span'.place) := by
  have htext : Function.Injective SymbolKey.text := fun _ _ => SymbolKey.ext
  simp only [Emission.Agree, occurrence_sortKey_inj, OccurrenceEmission.rest,
    append_colon_nat_inj, Emission.content, OccurrenceEmission.content,
    Content.occurrence.injEq, declarationKind_injective.eq_iff, htext.eq_iff,
    (Option.map_injective htext).eq_iff]
  tauto

theorem agree_macroDefined_iff :
    (Emission.occurrence (.macroDefined key span)).Agree (.occurrence (.macroDefined key' span')) ↔
      (key = key' → span.place = span'.place) := by
  have htext : Function.Injective SymbolKey.text := fun _ _ => SymbolKey.ext
  simp only [Emission.Agree, occurrence_sortKey_inj, OccurrenceEmission.rest, Emission.content,
    OccurrenceEmission.content, Content.occurrence.injEq, htext.eq_iff]
  tauto

/-- The key of a declaration's occurrence is longer than the declaration's own. -/
theorem agree_declared_macroDefined_iff {isDefinition : Bool} {path : String}
    {enclosing : Option SymbolKey} :
    (Emission.occurrence (.declared key isDefinition path evidence enclosing span)).Agree
        (.occurrence (.macroDefined key' span')) ↔
      joined key.text (joined (declarationKind isDefinition) path) ++ ":" ++ toString evidence ≠
        key'.text := by
  simp only [Emission.Agree, occurrence_sortKey_inj, OccurrenceEmission.rest, Emission.content,
    OccurrenceEmission.content, Content.occurrence.injEq]
  constructor
  · intro h hkey
    have hlength := congrArg String.length hkey
    rw [← (h hkey).2.1] at hlength
    simp only [joined, String.length_append] at hlength
    have hcolon : ":".length = 1 := rfl
    omega
  · intro h hkey
    exact absurd hkey h

theorem agree_occurrence_declared {kind : OccurrenceKind} {isDefinition : Bool} {path : String}
    {enclosing : Option SymbolKey} :
    (Emission.occurrence (.related kind target source evidence span)).Agree
      (.occurrence (.declared key isDefinition path evidence' enclosing span')) := by
  intro hkey
  rw [occurrence_sortKey_inj] at hkey
  simp only [OccurrenceEmission.rest, joined, @String.append_assoc key.text] at hkey
  exact absurd hkey.symm (key.text_append_ne _ kind _)

theorem agree_occurrence_macroDefined {kind : OccurrenceKind} :
    (Emission.occurrence (.related kind target source evidence span)).Agree
      (.occurrence (.macroDefined key span')) := by
  intro hkey
  rw [occurrence_sortKey_inj] at hkey
  have hne := key.text_append_ne "" kind (target.text ++ ":" ++ toString evidence)
  rw [String.append_empty] at hne
  exact absurd hkey.symm hne

theorem agree_expansion_iff {usePath usePath' : String} {spelling spelling' : Span} :
    (Emission.expansion key usePath evidence spelling span).Agree
        (.expansion key' usePath' evidence' spelling' span') ↔
      (joined key.text usePath = joined key'.text usePath' → evidence = evidence' →
        key = key' ∧ spelling.place = spelling'.place ∧ span.place = span'.place) := by
  simp only [Emission.Agree, Emission.sortKey_inj, Emission.word, Emission.rest,
    append_colon_nat_inj, Emission.content, Content.occurrence.injEq, Option.some.injEq,
    SymbolKey.ext_iff]
  tauto

theorem agree_inclusion_iff {path path' included included' : String} {place place' : Option Span} :
    (Emission.inclusion source target path included evidence place).Agree
        (.inclusion source' target' path' included' evidence' place') ↔
      (joined path included = joined path' included' → evidence = evidence' →
        source = source' ∧ target = target' ∧
          place.map Span.place = place'.map Span.place) := by
  simp only [Emission.Agree, Emission.sortKey_inj, Emission.word, Emission.rest,
    append_colon_nat_inj, Emission.content, Content.inclusion.injEq, SymbolKey.ext_iff]
  tauto

variable {site site' : CallSite}

theorem agree_callsite_iff {staticTarget staticTarget' : Option SymbolKey}
    {spelling spelling' : Option Span} :
    (Emission.callsite site staticTarget spelling span).Agree
        (.callsite site' staticTarget' spelling' span') ↔
      (site.Alike site' → staticTarget = staticTarget' ∧ span.place = span'.place ∧
        spelling.map Span.place = spelling'.map Span.place) := by
  have htext : Function.Injective SymbolKey.text := fun _ _ => SymbolKey.ext
  simp only [Emission.Agree, Emission.sortKey_inj, Emission.word, Emission.rest,
    CallSite.key_inj, Emission.content, Content.callsite.injEq, htext.eq_iff,
    (Option.map_injective htext).eq_iff]
  constructor
  · intro h halike
    exact (h ⟨trivial, halike⟩).2.2
  · rintro h ⟨-, halike⟩
    exact ⟨halike, halike.1, h halike⟩

theorem agree_resolved_iff :
    (Emission.target (.resolved site target span)).Agree
        (.target (.resolved site' target' span')) ↔
      (joined site.coordinates target.text = joined site'.coordinates target'.text →
        site.Alike site' ∧ target = target' ∧ span.place = span'.place) := by
  simp only [Emission.Agree, Emission.sortKey_inj, Emission.word, Emission.rest,
    TargetEmission.rest, CallSite.joined_key_inj, Emission.content, TargetEmission.content,
    Content.callTarget.injEq, CallSite.key_inj, SymbolKey.ext_iff]
  tauto

theorem agree_dataFlow_iff :
    (Emission.target (.dataFlow site target span)).Agree
        (.target (.dataFlow site' target' span')) ↔
      (joined site.coordinates target.text = joined site'.coordinates target'.text →
        site.Alike site' ∧ target = target' ∧ span.place = span'.place) := by
  simp only [Emission.Agree, Emission.sortKey_inj, Emission.word, Emission.rest,
    TargetEmission.rest, String.append_right_inj, CallSite.joined_key_inj, Emission.content,
    TargetEmission.content, Content.callTarget.injEq, CallSite.key_inj, SymbolKey.ext_iff]
  tauto

/-- A callsite key does not begin with the word of the indirect targets. -/
theorem agree_resolved_dataFlow :
    (Emission.target (.resolved site target span)).Agree
      (.target (.dataFlow site' target' span')) := by
  intro hkey
  have hrest := (Emission.sortKey_inj.mp hkey).2
  simp only [Emission.rest, TargetEmission.rest, joined, CallSite.key,
    @String.append_assoc ("callsite" ++ ":")] at hrest
  exact absurd (append_colon_inj_of_first (by decide) (by decide) hrest).1 (by decide)

theorem agree_argumentBinding_iff {index index' : Nat} {storage storage' : Storage} :
    (Emission.argumentBinding site index storage).Agree
        (.argumentBinding site' index' storage') ↔
      (site.Alike site' → index = index' → storage = storage') := by
  simp only [Emission.Agree, Emission.sortKey_inj, Emission.word, Emission.rest,
    append_colon_nat_inj, CallSite.key_inj, Emission.content, Content.argumentBinding.injEq]
  constructor
  · intro h halike hindex
    exact (h ⟨trivial, halike, hindex⟩).2.2.2
  · rintro h ⟨-, halike, hindex⟩
    exact ⟨by rw [halike.1], halike, hindex, h halike hindex⟩

theorem agree_resultBinding_iff {location location' definition definition' : String} :
    (Emission.resultBinding site location definition).Agree
        (.resultBinding site' location' definition') ↔
      (site.Alike site' → location = location' ∧ definition = definition') := by
  simp only [Emission.Agree, Emission.sortKey_inj, Emission.word, Emission.rest,
    CallSite.key_inj, Emission.content, Content.resultBinding.injEq]
  constructor
  · intro h halike
    exact (h ⟨trivial, halike⟩).2.2
  · rintro h ⟨-, halike⟩
    exact ⟨by rw [halike.1], halike, h halike⟩

end Agreement

end CppContextEngine.Analyzer.SinkKeys
