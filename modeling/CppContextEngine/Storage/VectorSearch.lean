import CppContextEngine.Storage.SymbolTables

/-!
# Vector search

Symbol variants share stored vectors through their attachments.  The search
scores each vector once, cuts at the score of the `limit`-th vector and ranks
the variants that are left.  The stored vectors and their cosine are parameters.
-/

namespace CppContextEngine.Storage

open CppContextEngine.Foundation CppContextEngine.Models

/-! ## Rows -/

/-- A row of `embedding_namespaces`. -/
structure NamespaceRow where
  id : Nat
  projectId : Nat
  model : String
  configurationId : String
  deriving DecidableEq

/-- A row of `embedding_content_records`; `Vector` is its blob, encoding and magnitude. -/
structure ContentRow (Vector : Type) where
  id : Nat
  projectId : Nat
  namespaceId : Nat
  dimensions : Nat
  vector : Vector
  deriving DecidableEq

/-- A row of `embedding_attachment_records`. -/
structure AttachmentRow where
  projectId : Nat
  variantId : String
  namespaceId : Nat
  contentId : Nat
  deriving DecidableEq

structure VectorStore (Vector : Type) extends SymbolStore where
  namespaces : List NamespaceRow
  contents : List (ContentRow Vector)
  attachments : List AttachmentRow
  /-- `id INTEGER PRIMARY KEY` -/
  contentKeys : (contents.map ContentRow.id).Nodup
  /-- `PRIMARY KEY(project_id,variant_id,namespace_id)` -/
  attachmentKeys :
    (attachments.map fun row => (row.projectId, row.variantId, row.namespaceId)).Nodup

/-- A validated query vector: its length and its cosine with a stored vector. -/
structure Query (Vector Score : Type) where
  dimension : Nat
  cosine : Vector → Score

inductive SearchError where
  | limit
  | project (error : StoreError)
  | dimension (query : Nat) (model : String) (stored : Nat)
  deriving DecidableEq, Repr

/-- One row of the ranking. -/
structure RankedVariant (Score : Type) where
  contentId : Nat
  variant : SnapshotRow
  score : Score
  deriving DecidableEq

namespace VectorStore

variable {Vector Score : Type} [LinearOrder Score] (store : VectorStore Vector)

/-! ## The search -/

/-- `_embedding_namespace` -/
def embeddingNamespace (projectId : Nat) (model configuration : String) : Option Nat :=
  (store.namespaces.find? fun row => row.projectId = projectId ∧ row.model = model ∧
    row.configurationId = configuration).map NamespaceRow.id

/-- A variant of the requested builds is attached to the vector. -/
def hasWitness (names : List String) (content : ContentRow Vector) : Bool :=
  store.attachments.any fun embedding =>
    decide (embedding.projectId = content.projectId ∧
      embedding.namespaceId = content.namespaceId ∧ embedding.contentId = content.id) &&
    store.variants.any fun variant =>
      decide (variant.projectId = embedding.projectId ∧ variant.id = embedding.variantId ∧
        variant.buildVariant ∈ names)

/-- The smallest dimension of a witnessed vector that `mismatches` selects. -/
def mismatch (projectId space : Nat) (names : List String) (mismatches : Nat → Bool) :
    Option Nat :=
  (sortBy id ((store.contents.filter fun content => content.projectId = projectId ∧
    content.namespaceId = space ∧ mismatches content.dimensions = true ∧
    store.hasWitness names content = true).map ContentRow.dimensions)).head?

/-- The common table expression `scores`. -/
def scores (query : Query Vector Score) (projectId space : Nat) (names : List String) :
    List (Nat × Score) :=
  (store.contents.filter fun content => content.projectId = projectId ∧
    content.namespaceId = space ∧ content.dimensions = query.dimension ∧
    store.hasWitness names content = true).map fun content =>
      (content.id, query.cosine content.vector)

/-- The join of `scores` with the attachments and the variants. -/
def joinScores (scored : List (Nat × Score)) (projectId space : Nat) (names : List String) :
    List (RankedVariant Score) :=
  scored.flatMap fun content => store.attachments.flatMap fun embedding =>
    store.variants.filterMap fun variant =>
      if embedding.projectId = projectId ∧ embedding.namespaceId = space ∧
          embedding.contentId = content.1 ∧ variant.projectId = embedding.projectId ∧
          variant.id = embedding.variantId ∧ variant.buildVariant ∈ names then
        some ⟨content.1, variant, content.2⟩
      else none

/-- `score >= (SELECT score FROM threshold) OR NOT EXISTS (SELECT 1 FROM threshold)` -/
def keeps (threshold : Option Score) (row : RankedVariant Score) : Bool :=
  match threshold with
  | some best => decide (best ≤ row.score)
  | none => true

/-- `ORDER BY score DESC, build_variant, id` -/
def bestFirst (row : RankedVariant Score) : Scoreᵒᵈ ×ₗ List String :=
  toLex (OrderDual.toDual row.score, [row.variant.buildVariant, row.variant.id])

/-- The rows of the final statement. -/
def selected (query : Query Vector Score) (projectId space : Nat) (names : List String)
    (limit : Nat) : List (RankedVariant Score) :=
  let scored := store.scores query projectId space names
  let threshold := nthBest (scored.map Prod.snd) limit
  (sortBy bestFirst
    ((store.joinScores scored projectId space names).filter (keeps threshold))).take limit

def hit (model : String) (row : RankedVariant Score) (symbol : CodeSymbol) : SearchHit Score where
  symbol := symbol
  score := row.score
  source := "vector:" ++ model

/-- `search_vector` -/
def searchVector (query : Query Vector Score) (model : String) (limit : Int)
    (root : Option String) (scope : Option BuildScope) (configurationId : String) :
    Except SearchError (List (SearchHit Score)) :=
  if limit ≤ 0 then .error .limit
  else
    let configuration := if configurationId = "" then model else configurationId
    let names := store.scopeNames scope
    match store.projectIdOf root with
    | .error error => .error (.project error)
    | .ok projectId =>
        match store.embeddingNamespace projectId model configuration with
        | none => .ok []
        | some space =>
            match (store.mismatch projectId space names (· < query.dimension)).or
                (store.mismatch projectId space names (query.dimension < ·)) with
            | some stored => .error (.dimension query.dimension model stored)
            | none =>
                let rows := store.selected query projectId space names limit.toNat
                match store.getSymbols (rows.map fun row => row.variant.id) root scope with
                | .error error => .error (.project error)
                | .ok symbols => .ok ((rows.zip symbols).filterMap fun (row, symbol) =>
                    symbol.map (hit model row))

/-! ## Brute force -/

/-- The vector attached to a variant. -/
def attachedContent (projectId space : Nat) (variant : SnapshotRow) :
    Option (ContentRow Vector) := do
  let embedding ← store.attachments.find? fun row => row.projectId = projectId ∧
    row.variantId = variant.id ∧ row.namespaceId = space
  store.contents.find? fun row => row.projectId = projectId ∧ row.namespaceId = space ∧
    row.id = embedding.contentId

/-- Every variant of the scope with the score of its vector. -/
def attachedVariants (cosine : Vector → Score) (projectId space : Nat) (names : List String) :
    List (RankedVariant Score) :=
  store.variants.filterMap fun variant =>
    if variant.projectId = projectId ∧ variant.buildVariant ∈ names then
      (store.attachedContent projectId space variant).map fun content =>
        ⟨content.id, variant, cosine content.vector⟩
    else none

/-- The ranking of all attached variants of the scope. -/
def bruteForce (cosine : Vector → Score) (projectId space : Nat) (names : List String) :
    List (RankedVariant Score) :=
  sortBy bestFirst (store.attachedVariants cosine projectId space names)

/-! ## Joined rows are attached variants -/

section Join

variable {store} {projectId space : Nat} {names : List String}

omit [LinearOrder Score]

theorem mem_joinScores {scored : List (Nat × Score)} {row : RankedVariant Score} :
    row ∈ store.joinScores scored projectId space names ↔
      (row.contentId, row.score) ∈ scored ∧ row.variant ∈ store.variants ∧
        row.variant.projectId = projectId ∧ row.variant.buildVariant ∈ names ∧
        ∃ embedding ∈ store.attachments, embedding.projectId = projectId ∧
          embedding.variantId = row.variant.id ∧ embedding.namespaceId = space ∧
          embedding.contentId = row.contentId := by
  obtain ⟨contentId, variant, score⟩ := row
  simp only [joinScores, List.mem_flatMap, List.mem_filterMap, Option.ite_none_right_eq_some,
    Option.some.injEq, RankedVariant.mk.injEq]
  constructor
  · rintro ⟨content, hcontent, embedding, hembedding, variant, hvariant,
      ⟨hproject, hspace, hid, hvproject, hvid, hname⟩, rfl, rfl, rfl⟩
    exact ⟨hcontent, hvariant, hvproject.trans hproject, hname, embedding, hembedding, hproject,
      hvid.symm, hspace, hid⟩
  · rintro ⟨hcontent, hvariant, hvproject, hname, embedding, hembedding, hproject, hvid, hspace,
      hid⟩
    exact ⟨(contentId, score), hcontent, embedding, hembedding, variant, hvariant,
      ⟨hproject, hspace, hid, hvproject.trans hproject.symm, hvid.symm, hname⟩, rfl, rfl, rfl⟩

theorem mem_scores {query : Query Vector Score} {contentId : Nat} {score : Score} :
    (contentId, score) ∈ store.scores query projectId space names ↔
      ∃ content ∈ store.contents, content.projectId = projectId ∧ content.namespaceId = space ∧
        content.dimensions = query.dimension ∧ store.hasWitness names content = true ∧
        content.id = contentId ∧ query.cosine content.vector = score := by
  simp [scores, and_assoc]

theorem attachedContent_eq_some {variant : SnapshotRow} {content : ContentRow Vector} :
    store.attachedContent projectId space variant = some content ↔
      content ∈ store.contents ∧ content.projectId = projectId ∧ content.namespaceId = space ∧
        ∃ embedding ∈ store.attachments, embedding.projectId = projectId ∧
          embedding.variantId = variant.id ∧ embedding.namespaceId = space ∧
          embedding.contentId = content.id := by
  have hattachment : ∀ row ∈ store.attachments, ∀ other ∈ store.attachments,
      decide (row.projectId = projectId ∧ row.variantId = variant.id ∧
        row.namespaceId = space) = true →
      decide (other.projectId = projectId ∧ other.variantId = variant.id ∧
        other.namespaceId = space) = true → row = other := by
    intro row hrow other hother h h'
    simp only [decide_eq_true_eq] at h h'
    refine List.inj_on_of_nodup_map store.attachmentKeys hrow hother ?_
    rw [h.1, h.2.1, h.2.2, h'.1, h'.2.1, h'.2.2]
  have hcontent (id : Nat) : ∀ row ∈ store.contents, ∀ other ∈ store.contents,
      decide (row.projectId = projectId ∧ row.namespaceId = space ∧ row.id = id) = true →
      decide (other.projectId = projectId ∧ other.namespaceId = space ∧ other.id = id) = true →
      row = other := by
    intro row hrow other hother h h'
    simp only [decide_eq_true_eq] at h h'
    exact List.inj_on_of_nodup_map store.contentKeys hrow hother (h.2.2.trans h'.2.2.symm)
  simp only [attachedContent, Option.bind_eq_bind, Option.bind_eq_some_iff,
    find?_eq_some_iff_of_unique hattachment, find?_eq_some_iff_of_unique (hcontent _),
    decide_eq_true_eq]
  constructor
  · rintro ⟨embedding, ⟨hembedding, hproject, hvariant, hspace⟩, hmem, hcproject, hcspace, hid⟩
    exact ⟨hmem, hcproject, hcspace, embedding, hembedding, hproject, hvariant, hspace, hid.symm⟩
  · rintro ⟨hmem, hcproject, hcspace, embedding, hembedding, hproject, hvariant, hspace, hid⟩
    exact ⟨embedding, ⟨hembedding, hproject, hvariant, hspace⟩, hmem, hcproject, hcspace, hid.symm⟩

theorem mem_attachedVariants {cosine : Vector → Score} {row : RankedVariant Score} :
    row ∈ store.attachedVariants cosine projectId space names ↔
      row.variant ∈ store.variants ∧ row.variant.projectId = projectId ∧
        row.variant.buildVariant ∈ names ∧
        ∃ content, store.attachedContent projectId space row.variant = some content ∧
          content.id = row.contentId ∧ cosine content.vector = row.score := by
  obtain ⟨contentId, variant, score⟩ := row
  simp only [attachedVariants, List.mem_filterMap, Option.ite_none_right_eq_some,
    Option.map_eq_some_iff, RankedVariant.mk.injEq]
  constructor
  · rintro ⟨variant, hvariant, ⟨hproject, hname⟩, content, hcontent, hid, rfl, hscore⟩
    exact ⟨hvariant, hproject, hname, content, hcontent, hid, hscore⟩
  · rintro ⟨hvariant, hproject, hname, content, hcontent, hid, hscore⟩
    exact ⟨variant, hvariant, ⟨hproject, hname⟩, content, hcontent, hid, rfl, hscore⟩

theorem hasWitness_iff {content : ContentRow Vector} :
    store.hasWitness names content = true ↔
      ∃ embedding ∈ store.attachments, embedding.projectId = content.projectId ∧
        embedding.namespaceId = content.namespaceId ∧ embedding.contentId = content.id ∧
        ∃ variant ∈ store.variants, variant.projectId = embedding.projectId ∧
          variant.id = embedding.variantId ∧ variant.buildVariant ∈ names := by
  simp [hasWitness, and_assoc]

/-- The join yields the attached variants of the scope if their vectors all have the query's
dimension. -/
theorem mem_joinScores_iff {query : Query Vector Score}
    (hdimensions : ∀ content ∈ store.contents, content.projectId = projectId →
      content.namespaceId = space → store.hasWitness names content = true →
      content.dimensions = query.dimension) {row : RankedVariant Score} :
    row ∈ store.joinScores (store.scores query projectId space names) projectId space names ↔
      row ∈ store.attachedVariants query.cosine projectId space names := by
  rw [mem_joinScores, mem_attachedVariants, mem_scores]
  constructor
  · rintro ⟨⟨content, hcontent, hproject, hspace, -, -, hid, hscore⟩, hvariant, hvproject, hname,
      embedding, hembedding, heproject, hevariant, hespace, heid⟩
    refine ⟨hvariant, hvproject, hname, content, ?_, hid, hscore⟩
    exact attachedContent_eq_some.mpr ⟨hcontent, hproject, hspace, embedding, hembedding,
      heproject, hevariant, hespace, heid.trans hid.symm⟩
  · rintro ⟨hvariant, hvproject, hname, content, hattached, hid, hscore⟩
    obtain ⟨hcontent, hproject, hspace, embedding, hembedding, heproject, hevariant, hespace,
      heid⟩ := attachedContent_eq_some.mp hattached
    have hwitness : store.hasWitness names content = true :=
      hasWitness_iff.mpr ⟨embedding, hembedding, heproject.trans hproject.symm,
        hespace.trans hspace.symm, heid, row.variant, hvariant, hvproject.trans heproject.symm,
        hevariant.symm, hname⟩
    exact ⟨⟨content, hcontent, hproject, hspace,
      hdimensions content hcontent hproject hspace hwitness, hwitness, hid, hscore⟩, hvariant,
      hvproject, hname, embedding, hembedding, heproject, hevariant, hespace, heid.trans hid⟩

theorem attachedVariants_nodup (cosine : Vector → Score) :
    (store.attachedVariants cosine projectId space names).Nodup := by
  refine List.Nodup.filterMap ?_ (List.Nodup.of_map _ store.variantKeys)
  intro variant other row hrow hother
  simp only [Option.mem_def, Option.ite_none_right_eq_some, Option.map_eq_some_iff] at hrow hother
  obtain ⟨_, _, _, hrow⟩ := hrow
  obtain ⟨_, _, _, hother⟩ := hother
  exact congrArg RankedVariant.variant (hrow.trans hother.symm)

theorem joinScores_nodup {scored : List (Nat × Score)} (hscored : (scored.map Prod.fst).Nodup) :
    (store.joinScores scored projectId space names).Nodup := by
  have hinner {content : Nat × Score} {embedding : AttachmentRow} {row : RankedVariant Score}
      (h : row ∈ store.variants.filterMap fun variant =>
        if embedding.projectId = projectId ∧ embedding.namespaceId = space ∧
            embedding.contentId = content.1 ∧ variant.projectId = embedding.projectId ∧
            variant.id = embedding.variantId ∧ variant.buildVariant ∈ names then
          some (RankedVariant.mk content.1 variant content.2)
        else none) : row.contentId = content.1 ∧ (embedding.projectId, embedding.variantId,
          embedding.namespaceId) = (projectId, row.variant.id, space) := by
    simp only [List.mem_filterMap, Option.ite_none_right_eq_some, Option.some.injEq] at h
    obtain ⟨variant, -, ⟨hproject, hspace, -, -, hvariant, -⟩, rfl⟩ := h
    exact ⟨rfl, by rw [hproject, hspace, hvariant]⟩
  refine List.nodup_flatMap.mpr ⟨fun content _ => List.nodup_flatMap.mpr ⟨?_, ?_⟩, ?_⟩
  · intro embedding _
    refine List.Nodup.filterMap ?_ (List.Nodup.of_map _ store.variantKeys)
    intro variant other row hrow hother
    simp only [Option.mem_def, Option.ite_none_right_eq_some, Option.some.injEq] at hrow hother
    exact congrArg RankedVariant.variant (hrow.2.trans hother.2.symm)
  · refine (List.pairwise_map.mp store.attachmentKeys).imp ?_
    intro embedding other hne row hrow hother
    exact hne ((hinner hrow).2.trans (hinner hother).2.symm)
  · refine (List.pairwise_map.mp hscored).imp ?_
    intro content other hne row hrow hother
    obtain ⟨_, -, hrow⟩ := List.mem_flatMap.mp hrow
    obtain ⟨_, -, hother⟩ := List.mem_flatMap.mp hother
    exact hne ((hinner hrow).1.symm.trans (hinner hother).1)

theorem scores_nodup (query : Query Vector Score) :
    ((store.scores query projectId space names).map Prod.fst).Nodup := by
  rw [scores, List.map_map]
  exact (store.contentKeys.sublist (List.filter_sublist.map _))

/-- Every scored vector has a row. -/
theorem exists_row_of_mem_scores {query : Query Vector Score} {content : Nat × Score}
    (h : content ∈ store.scores query projectId space names) :
    ∃ row ∈ store.joinScores (store.scores query projectId space names) projectId space names,
      (row.contentId, row.score) = content := by
  obtain ⟨found, hfound, hproject, hspace, -, hwitness, hid, hscore⟩ :=
    mem_scores.mp (show (content.1, content.2) ∈ _ from h)
  obtain ⟨embedding, hembedding, heproject, hespace, heid, variant, hvariant, hvproject, hvid,
    hname⟩ := hasWitness_iff.mp hwitness
  refine ⟨⟨content.1, variant, content.2⟩, mem_joinScores.mpr ⟨h, hvariant, ?_, hname, ?_⟩, rfl⟩
  · exact hvproject.trans (heproject.trans hproject)
  · exact ⟨embedding, hembedding, heproject.trans hproject, hvid.symm, hespace.trans hspace,
      heid.trans hid⟩

theorem bestFirst_injOn {cosine : Vector → Score} : ∀ row ∈
    store.attachedVariants cosine projectId space names, ∀ other ∈
    store.attachedVariants cosine projectId space names, bestFirst row = bestFirst other →
      row = other := by
  intro row hrow other hother hkey
  have hids : row.variant.id = other.variant.id := by
    have := congrArg (fun key => (ofLex key).2) hkey
    simp only [bestFirst, ofLex_toLex, List.cons.injEq, and_true] at this
    exact this.2
  obtain ⟨hvariant, hproject, -, content, hcontent, hid, hscore⟩ := mem_attachedVariants.mp hrow
  obtain ⟨hvariant', hproject', -, content', hcontent', hid', hscore'⟩ :=
    mem_attachedVariants.mp hother
  have hsame : row.variant = other.variant := List.inj_on_of_nodup_map store.variantKeys hvariant
    hvariant' (by rw [hids, hproject, hproject'])
  rw [hsame, hcontent'] at hcontent
  cases hcontent
  obtain ⟨rowContent, rowVariant, rowScore⟩ := row
  obtain ⟨otherContent, otherVariant, otherScore⟩ := other
  simp only at hsame hid hid' hscore hscore'
  subst hsame hid hid' hscore hscore'
  rfl

end Join

/-! ## The cut loses no variant -/

section Cut

variable {store} {projectId space : Nat} {names : List String}

theorem enough_rows {query : Query Vector Score} {limit : Nat} {best : Score}
    (hbest : nthBest ((store.scores query projectId space names).map Prod.snd) limit =
      some best) :
    limit ≤ ((store.joinScores (store.scores query projectId space names) projectId space
      names).filter (keeps (some best))).length := by
  have hcount := le_countP_of_nthBest hbest
  rw [List.countP_map] at hcount
  have hkeys : (store.scores query projectId space names).Nodup :=
    List.Nodup.of_map _ (scores_nodup query)
  refine hcount.trans (@countP_le_length_of_rows _ _
    (fun row : RankedVariant Score => (row.contentId, row.score)) _ _ _ hkeys ?_)
  intro content hcontent hgood
  obtain ⟨row, hrow, rfl⟩ := exists_row_of_mem_scores hcontent
  exact ⟨row, List.mem_filter.mpr ⟨hrow, by simpa [keeps] using hgood⟩, rfl⟩

theorem keeps_of_bestFirst (threshold : Option Score) (row other : RankedVariant Score)
    (hle : bestFirst row ≤ bestFirst other) (hother : keeps threshold other = true) :
    keeps threshold row = true := by
  cases threshold with
  | none => rfl
  | some best =>
      simp only [keeps, decide_eq_true_eq] at hother ⊢
      have hscore : other.score ≤ row.score := by
        rcases Prod.Lex.le_iff.mp hle with hlt | heq
        · exact (show other.score < row.score from hlt).le
        · exact (show row.score = other.score from heq.1).ge
      exact hother.trans hscore

theorem selected_eq {query : Query Vector Score} {limit : Nat}
    (hdimensions : ∀ content ∈ store.contents, content.projectId = projectId →
      content.namespaceId = space → store.hasWitness names content = true →
      content.dimensions = query.dimension) :
    store.selected query projectId space names limit =
      (store.bruteForce query.cosine projectId space names).take limit := by
  have hperm : (store.attachedVariants query.cosine projectId space names).Perm
      (store.joinScores (store.scores query projectId space names) projectId space names) :=
    (List.perm_ext_iff_of_nodup (attachedVariants_nodup query.cosine)
      (joinScores_nodup (scores_nodup query))).mpr fun row =>
        (mem_joinScores_iff hdimensions).symm
  rw [selected, bruteForce, sortBy_eq_of_perm bestFirst hperm bestFirst_injOn]
  refine take_sortBy_filter bestFirst (keeps_of_bestFirst _) ?_
  cases hbest : nthBest ((store.scores query projectId space names).map Prod.snd) limit with
  | none => exact .inr fun _ _ => rfl
  | some best => exact .inl (enough_rows hbest)

end Cut

/-! ## The search equals brute force -/

section Search

variable {store} {projectId space : Nat} {query : Query Vector Score} {model : String}
  {root : Option String} {scope : Option BuildScope} {configurationId : String}

omit [LinearOrder Score] in
theorem mismatch_eq_none {names : List String} {mismatches : Nat → Bool}
    (h : ∀ content ∈ store.contents, content.projectId = projectId →
      content.namespaceId = space → store.hasWitness names content = true →
      mismatches content.dimensions = false) :
    store.mismatch projectId space names mismatches = none := by
  have hnil : (store.contents.filter fun content => content.projectId = projectId ∧
      content.namespaceId = space ∧ mismatches content.dimensions = true ∧
      store.hasWitness names content = true) = [] := by
    refine List.filter_eq_nil_iff.mpr fun content hcontent => ?_
    simp only [decide_eq_true_eq]
    rintro ⟨hproject, hspace, hmismatch, hwitness⟩
    simp [h content hcontent hproject hspace hwitness] at hmismatch
  rw [mismatch, hnil]
  rfl

omit [LinearOrder Score] in
/-- Each selected row is resolved to the symbol of its own variant. -/
theorem filterMap_hit {names : List String} {rows : List (RankedVariant Score)}
    (hrows : ∀ row ∈ rows, row.variant ∈ store.variants ∧
      row.variant.projectId = projectId ∧ row.variant.buildVariant ∈ names) :
    ((rows.zip (rows.map fun row => store.lookup projectId names row.variant.id)).filterMap
      fun (row, symbol) => symbol.map (hit model row)) =
      rows.map fun row => hit model row row.variant.symbol := by
  induction rows with
  | nil => rfl
  | cons row rows ih =>
      obtain ⟨hvariant, hproject, hname⟩ := hrows row List.mem_cons_self
      have hlookup : store.lookup projectId names row.variant.id = some row.variant.symbol := by
        rw [SymbolStore.lookup,
          store.exactRow_eq_some.mpr ⟨hvariant, hproject, rfl, hname⟩]
        rfl
      simp [hlookup, ih fun other hother => hrows other (List.mem_cons_of_mem _ hother)]

/--
The search returns the first `limit` rows of the ranking of all attached
variants of the scope, for any totally ordered scores.
-/
theorem searchVector_eq_bruteForce {limit : Int} (hlimit : 1 ≤ limit)
    (hproject : store.projectIdOf root = .ok projectId)
    (hspace : store.embeddingNamespace projectId model
      (if configurationId = "" then model else configurationId) = some space)
    (hdimensions : ∀ content ∈ store.contents, content.projectId = projectId →
      content.namespaceId = space →
      store.hasWitness (store.scopeNames scope) content = true →
      content.dimensions = query.dimension) :
    store.searchVector query model limit root scope configurationId =
      .ok (((store.bruteForce query.cosine projectId space (store.scopeNames scope)).take
        limit.toNat).map fun row => hit model row row.variant.symbol) := by
  have hsmaller : store.mismatch projectId space (store.scopeNames scope)
      (· < query.dimension) = none :=
    mismatch_eq_none fun content hcontent hcproject hcspace hwitness => by
      simp [hdimensions content hcontent hcproject hcspace hwitness]
  have hlarger : store.mismatch projectId space (store.scopeNames scope)
      (query.dimension < ·) = none :=
    mismatch_eq_none fun content hcontent hcproject hcspace hwitness => by
      simp [hdimensions content hcontent hcproject hcspace hwitness]
  have hrows : ∀ row ∈ (store.bruteForce query.cosine projectId space
      (store.scopeNames scope)).take limit.toNat, row.variant ∈ store.variants ∧
      row.variant.projectId = projectId ∧ row.variant.buildVariant ∈ store.scopeNames scope := by
    intro row hrow
    have hattached := (mem_sortBy bestFirst).mp (List.mem_of_mem_take hrow)
    obtain ⟨hvariant, hvproject, hname, -⟩ := mem_attachedVariants.mp hattached
    exact ⟨hvariant, hvproject, hname⟩
  have hpositive : ¬ limit ≤ 0 := by omega
  simp only [searchVector, hpositive, ↓reduceIte, hproject, hspace, hsmaller, hlarger,
    Option.or_none, selected_eq hdimensions, store.getSymbols_eq hproject, List.map_map]
  exact congrArg Except.ok (filterMap_hit hrows)

end Search

end VectorStore

/-! ## Two builds that share a vector -/

def sharedText : SymbolText where
  id := ⟨"shared", by decide⟩
  qualifiedName := ⟨"shared", by decide⟩
  kind := .function
  span := ⟨"f.cpp", 1, 1, 1, 2, by decide, by decide⟩

def sharedVariant (id build : String) : SnapshotRow where
  projectId := 1
  id := id
  symbolId := "shared"
  buildVariant := build
  buildConfigurationId := build
  translationUnitId := id
  isDefinition := true
  text := sharedText

/-- Two variants of one build share the second vector; the first is attached outside of it. -/
def sharedStore : VectorStore Nat where
  projectRoot := some "/p"
  buildScope := .default
  projects := [⟨1, "/p"⟩]
  symbols := [⟨1, sharedText, ""⟩]
  variants := [sharedVariant "a" "debug", sharedVariant "c" "default",
    sharedVariant "b" "default"]
  variantKeys := by decide
  namespaces := [⟨7, 1, "m", "m"⟩]
  contents := [⟨1, 1, 7, 3, 9⟩, ⟨2, 1, 7, 2, 5⟩]
  attachments := [⟨1, "a", 7, 1⟩, ⟨1, "c", 7, 2⟩, ⟨1, "b", 7, 2⟩]
  contentKeys := by decide
  attachmentKeys := by decide

def sharedQuery : Query Nat Nat := ⟨2, id⟩

namespace VectorStore

theorem searchVector_eq_bruteForce_shared :
    sharedStore.searchVector sharedQuery "m" 1 none none "" =
      .ok (((sharedStore.bruteForce id 1 7 ["default"]).take 1).map fun row =>
        hit "m" row row.variant.symbol) :=
  searchVector_eq_bruteForce (by decide) rfl rfl (by decide)

end VectorStore

end CppContextEngine.Storage
