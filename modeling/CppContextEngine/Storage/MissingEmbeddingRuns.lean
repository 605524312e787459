import CppContextEngine.Storage.MissingEmbeddings

/-!
# What a stream yields

A consumer only adds attachments of the batch that it was given, so the rows
behind the cursor stay what they were.  A stream therefore yields the missing
variants once each, in order, until a batch is left outstanding.
-/

namespace CppContextEngine.Storage

open CppContextEngine.Foundation CppContextEngine.Models

/-! ## Attachments of a session -/

namespace EmbeddingSession

variable {session : EmbeddingSession} {target : EmbeddingTarget}

/-- The join with the attachments of the namespace finds a row. -/
def Attached (session : EmbeddingSession) (target : EmbeddingTarget) (id : String) : Prop :=
  ∃ space ∈ session.embeddingNamespace target,
    (⟨target.projectId, id, space⟩ : AttachmentKey) ∈ session.attachments

def Sound (session : EmbeddingSession) : Prop :=
  ∀ attachment ∈ session.attachments, ∃ row ∈ session.namespaces, row.id = attachment.namespaceId

/-- The session has grown by attachments of some records. -/
structure Adds (records : List EmbeddingRecord) (target : EmbeddingTarget)
    (session session' : EmbeddingSession) : Prop where
  sound : session'.Sound
  kept : ∀ id, session.Attached target id → session'.Attached target id
  added : ∀ id, session'.Attached target id →
    session.Attached target id ∨ ∃ record ∈ records, record.variantId = id
  outstanding : session'.outstanding = session.outstanding

theorem Adds.refl (records : List EmbeddingRecord) (hsound : session.Sound) :
    Adds records target session session :=
  ⟨hsound, fun _ h => h, fun _ h => .inl h, rfl⟩

theorem lt_nextNamespace {row : NamespaceRow} (h : row ∈ session.namespaces) :
    row.id < session.nextNamespace := by
  have hle : ∀ ids : List Nat, ∀ id ∈ ids, id ≤ ids.foldr max 0 := by
    intro ids
    induction ids with
    | nil => simp
    | cons first ids ih =>
        intro id hid
        rcases List.mem_cons.mp hid with rfl | hid
        · simp
        · have := ih id hid
          simp only [List.foldr_cons]
          omega
  have := hle _ _ (List.mem_map_of_mem (f := NamespaceRow.id) h)
  unfold nextNamespace
  omega

theorem writeAttachments_adds {space : Nat} {records : List EmbeddingRecord}
    (hsound : session.Sound) (hspace : session.embeddingNamespace target = some space) :
    Adds records target session
      (session.writeAttachments target.projectId space records) := by
  have hmem : ∀ key, key ∈ (session.writeAttachments target.projectId space records).attachments ↔
      key ∈ session.attachments ∨
        ∃ record ∈ records, (⟨target.projectId, record.variantId, space⟩ : AttachmentKey) = key := by
    intro key
    simp only [writeAttachments, List.mem_append, List.mem_filter, List.mem_map,
      decide_eq_true_eq]
    tauto
  have hsame : (session.writeAttachments target.projectId space records).embeddingNamespace target =
      some space := hspace
  refine ⟨?_, ?_, ?_, rfl⟩
  · intro key hkey
    rcases (hmem key).mp hkey with hkey | ⟨record, -, rfl⟩
    · exact hsound key hkey
    · simp only [embeddingNamespace, Option.map_eq_some_iff] at hspace
      obtain ⟨row, hrow, rfl⟩ := hspace
      exact ⟨row, List.mem_of_find?_eq_some hrow, rfl⟩
  · rintro id ⟨found, hfound, hkey⟩
    rw [hspace] at hfound
    cases hfound
    exact ⟨space, hsame, (hmem _).mpr (.inl hkey)⟩
  · rintro id ⟨found, hfound, hkey⟩
    rw [hsame] at hfound
    cases hfound
    rcases (hmem _).mp hkey with hkey | ⟨record, hrecord, heq⟩
    · exact .inl ⟨space, hspace, hkey⟩
    · simp only [AttachmentKey.mk.injEq, true_and, and_true] at heq
      exact .inr ⟨record, hrecord, heq⟩

theorem createNamespace_adds (records : List EmbeddingRecord) (hsound : session.Sound) :
    Adds records target session (session.createNamespace target) := by
  unfold createNamespace
  cases hspace : session.embeddingNamespace target with
  | some space => exact Adds.refl records hsound
  | none =>
      have hnew : EmbeddingSession.embeddingNamespace { session with namespaces :=
          session.namespaces ++ [⟨session.nextNamespace, target.projectId, target.model,
            target.configuration⟩] } target = some session.nextNamespace := by
        simp only [embeddingNamespace, Option.map_eq_none_iff] at hspace
        simp only [embeddingNamespace, List.find?_append, hspace]
        simp
      refine ⟨?_, ?_, ?_, rfl⟩
      · intro key hkey
        obtain ⟨row, hrow, heq⟩ := hsound key hkey
        exact ⟨row, List.mem_append_left _ hrow, heq⟩
      · rintro id ⟨space, hfound, -⟩
        simp [hspace] at hfound
      · rintro id ⟨space, hfound, hkey⟩
        rw [hnew] at hfound
        cases hfound
        -- nothing refers to the new row
        obtain ⟨row, hrow, heq⟩ := hsound _ hkey
        have := lt_nextNamespace hrow
        simp only at heq
        omega

theorem Adds.trans {records : List EmbeddingRecord} {session' session'' : EmbeddingSession}
    (first : Adds records target session session') (second : Adds records target session' session'') :
    Adds records target session session'' where
  sound := second.sound
  kept id h := second.kept id (first.kept id h)
  added id h := (second.added id h).elim (first.added id) .inr
  outstanding := second.outstanding.trans first.outstanding

theorem Adds.mono {records others : List EmbeddingRecord} {session' : EmbeddingSession}
    (h : Adds records target session session') (hsubset : records ⊆ others) :
    Adds others target session session' where
  sound := h.sound
  kept := h.kept
  added id hid := (h.added id hid).imp_right fun ⟨record, hrecord, heq⟩ =>
    ⟨record, hsubset hrecord, heq⟩
  outstanding := h.outstanding

theorem attachExisting_adds (entries : List EmbeddingRecord) (pooled : String → Bool)
    (hsound : session.Sound) :
    Adds entries target session (session.attachExisting target entries pooled).2 := by
  unfold attachExisting
  cases hspace : session.embeddingNamespace target with
  | none => exact Adds.refl entries hsound
  | some space => exact (writeAttachments_adds hsound hspace).mono (List.filter_subset_self _)

theorem attachExisting_missing (entries : List EmbeddingRecord) (pooled : String → Bool) :
    (session.attachExisting target entries pooled).1 ⊆ entries := by
  unfold attachExisting
  cases session.embeddingNamespace target with
  | none => simp
  | some space => exact List.filter_subset_self _

theorem putContent_adds (selected : List EmbeddingRecord) (hsound : session.Sound) :
    Adds selected target session (session.putContent target selected) := by
  unfold putContent
  split
  case isTrue => exact Adds.refl selected hsound
  case isFalse =>
    have hcreate := @createNamespace_adds session target selected hsound
    simp only
    cases hspace : (session.createNamespace target).embeddingNamespace target with
    | none => exact hcreate
    | some space => exact hcreate.trans (writeAttachments_adds hcreate.sound hspace)

end EmbeddingSession

/-! ## What a consumer can do -/

open EmbeddingSession

/-- A session in which a batch was issued, and what was done with it so far. -/
structure Consuming (batch : List EmbeddingRecord) (target : EmbeddingTarget)
    (start session : EmbeddingSession) : Prop where
  sound : session.Sound
  kept : ∀ id, start.Attached target id → session.Attached target id
  added : ∀ id, session.Attached target id →
    start.Attached target id ∨ ∃ record ∈ batch, record.variantId = id
  records : ∀ state ∈ session.outstanding, state.records ⊆ batch
  missing : ∀ state ∈ session.outstanding, ∀ missing ∈ state.missing, missing ⊆ batch

variable {batch : List EmbeddingRecord} {target : EmbeddingTarget}
  {start session : EmbeddingSession}

theorem Consuming.add {session' : EmbeddingSession} {records : List EmbeddingRecord}
    (h : Consuming batch target start session) (hadds : Adds records target session session')
    (hsubset : records ⊆ batch) : Consuming batch target start session' where
  sound := hadds.sound
  kept id hid := hadds.kept id (h.kept id hid)
  added id hid := ((hadds.mono hsubset).added id hid).elim (h.added id) .inr
  records := by
    rw [hadds.outstanding]
    exact h.records
  missing := by
    rw [hadds.outstanding]
    exact h.missing

/-- Nothing but the attachments and the namespaces counts for the rows that are missing. -/
theorem Consuming.withOutstanding {outstanding : Option TrustedState}
    (h : Consuming batch target start session)
    (hrecords : ∀ state ∈ outstanding, state.records ⊆ batch)
    (hmissing : ∀ state ∈ outstanding, ∀ missing ∈ state.missing, missing ⊆ batch) :
    Consuming batch target start { session with outstanding } where
  sound := h.sound
  kept := h.kept
  added := h.added
  records := hrecords
  missing := hmissing

theorem Consuming.perform (h : Consuming batch target start session) (call : ConsumerCall) :
    Consuming batch target start (call.perform target batch session) := by
  cases call with
  | attachTrusted pooled =>
      simp only [ConsumerCall.perform]
      split
      case h_1 records hout =>
        have hrecords : records ⊆ batch := h.records _ hout
        have hadd := h.add (attachExisting_adds records pooled h.sound) hrecords
        have hmissing := @attachExisting_missing session target records pooled
        apply hadd.withOutstanding
        · intro state hstate
          split at hstate
          · cases hstate
          · cases hstate
            exact hrecords
        · intro state hstate missing hmem
          split at hstate
          · cases hstate
          · cases hstate
            cases hmem
            exact List.Subset.trans hmissing hrecords
      case h_2 => exact h
  | putTrusted =>
      simp only [ConsumerCall.perform]
      split
      case h_1 records missing hout =>
        have hadd := h.add (putContent_adds missing h.sound) (h.missing _ hout _ rfl)
        apply hadd.withOutstanding <;> simp
      case h_2 => exact h
  | attachExisting chosen pooled =>
      exact h.add (attachExisting_adds _ pooled h.sound) (List.filter_subset_self _)
  | putContent chosen => exact h.add (putContent_adds _ h.sound) (List.filter_subset_self _)

theorem Consuming.foldl (calls : List ConsumerCall)
    (h : Consuming batch target start session) :
    Consuming batch target start (calls.foldl (ConsumerCall.perform target batch) session) := by
  induction calls generalizing session with
  | nil => exact h
  | cons call calls ih => exact ih (h.perform call)

/-! ## Settled batches -/

/-- The consumer attaches the batch and then embeds what has no vector. -/
def Settles (calls : List ConsumerCall) : Prop :=
  ∃ pooled, [ConsumerCall.attachTrusted pooled, .putTrusted].Sublist calls

theorem outstanding_attachExisting (entries : List EmbeddingRecord) (pooled : String → Bool) :
    (session.attachExisting target entries pooled).2.outstanding = session.outstanding := by
  unfold attachExisting
  cases session.embeddingNamespace target <;> rfl

theorem outstanding_putContent (selected : List EmbeddingRecord) :
    (session.putContent target selected).outstanding = session.outstanding := by
  have hcreate : (session.createNamespace target).outstanding = session.outstanding := by
    unfold createNamespace
    cases session.embeddingNamespace target <;> rfl
  unfold putContent
  split
  · rfl
  · simp only
    cases (session.createNamespace target).embeddingNamespace target <;> exact hcreate

theorem outstanding_none (calls : List ConsumerCall) (h : session.outstanding = none) :
    (calls.foldl (ConsumerCall.perform target batch) session).outstanding = none := by
  induction calls generalizing session with
  | nil => exact h
  | cons call calls ih =>
      apply ih
      cases call <;> simp [ConsumerCall.perform, h, outstanding_attachExisting,
        outstanding_putContent]

theorem outstanding_attached {calls : List ConsumerCall} {records missing : List EmbeddingRecord}
    (h : session.outstanding = some { records, missing := some missing })
    (hput : .putTrusted ∈ calls) :
    (calls.foldl (ConsumerCall.perform target batch) session).outstanding = none := by
  induction calls generalizing session with
  | nil => simp at hput
  | cons call calls ih =>
      rw [List.foldl_cons]
      cases call with
      | putTrusted =>
          apply outstanding_none
          simp [ConsumerCall.perform, h]
      | _ =>
          apply ih _ (by simpa using hput)
          simp [ConsumerCall.perform, h, outstanding_attachExisting, outstanding_putContent]

theorem outstanding_issued {calls : List ConsumerCall} {records : List EmbeddingRecord}
    (h : session.outstanding = some { records }) (hsettles : Settles calls) :
    (calls.foldl (ConsumerCall.perform target batch) session).outstanding = none := by
  induction calls generalizing session with
  | nil =>
      obtain ⟨pooled, hsub⟩ := hsettles
      simp at hsub
  | cons call calls ih =>
      rw [List.foldl_cons]
      obtain ⟨pooled, hsub⟩ := hsettles
      cases call with
      | attachTrusted pooled' =>
          have hput : .putTrusted ∈ calls := by
            cases hsub with
            | cons _ hsub => exact hsub.subset (by simp)
            | cons_cons _ hsub => exact hsub.subset (by simp)
          by_cases hall : (session.attachExisting target records pooled').1 = []
          · apply outstanding_none
            simp [ConsumerCall.perform, h, hall]
          · have hattached :
                ((ConsumerCall.attachTrusted pooled').perform target batch session).outstanding =
                  some ⟨records, some (session.attachExisting target records pooled').1⟩ := by
              simp [ConsumerCall.perform, h, hall]
            exact outstanding_attached hattached hput
      | _ =>
          have hrest : Settles calls := ⟨pooled, by cases hsub; assumption⟩
          apply ih _ hrest
          simp [ConsumerCall.perform, h, outstanding_attachExisting, outstanding_putContent]

/-! ## One batch -/

namespace EmbeddingStore

variable (store : EmbeddingStore) (names : List String) (maxTextChars : Nat)

/-- The record that a row is due: its identifier with the text of its own snapshot. -/
def record (target : EmbeddingTarget) (row : VariantKeys) : EmbeddingRecord :=
  ⟨row.id, (store.snapshotText target maxTextChars row.snapshotId).getD ""⟩

/-- The rows behind a cursor, in the order of the stream. -/
def rowsBehind (target : EmbeddingTarget) (session : EmbeddingSession) (cursor : StreamCursor) :
    List VariantKeys :=
  sortBy (groupItem VariantKeys.snapshotId VariantKeys.rowKey)
    (beyond (groupItem VariantKeys.snapshotId VariantKeys.rowKey)
      (store.missingRows target names session) (cursor.last.map toLex))

/-- The text that is kept is the one of its snapshot. -/
def Projected (target : EmbeddingTarget) (projected : Option (Nat × String)) : Prop :=
  ∀ snapshot text, projected = some (snapshot, text) →
    store.snapshotText target maxTextChars snapshot = some text

theorem mem_missingRows {row : VariantKeys} : row ∈ store.missingRows target names session ↔
    (row ∈ store.variantKeyRows ∧ row.projectId = target.projectId ∧ row.buildVariant ∈ names) ∧
      ¬ session.Attached target row.id := by
  simp only [missingRows, List.mem_filter, decide_eq_true_eq, Attached, not_exists, not_and]
  constructor
  · rintro ⟨hrow, hproject, hnames, hmissing⟩
    exact ⟨⟨hrow, hproject, hnames⟩, hproject ▸ hmissing⟩
  · rintro ⟨⟨hrow, hproject, hnames⟩, hmissing⟩
    exact ⟨hrow, hproject, hnames, hproject ▸ hmissing⟩

theorem nodup_missing_keys : ((store.missingRows target names session).map
    (groupItem VariantKeys.snapshotId VariantKeys.rowKey)).Nodup := by
  apply List.Nodup.map_on
  · intro row hrow other hother heq
    simp only [groupItem, toLex_inj, Prod.mk.injEq] at heq
    exact List.inj_on_of_nodup_map store.rowKeys (List.mem_of_mem_filter hrow)
      (List.mem_of_mem_filter hother) heq.2
  · exact store.rowKeys.of_map.filter _

theorem missing_of_behind {cursor : StreamCursor} {row : VariantKeys}
    (h : row ∈ store.rowsBehind names target session cursor) :
    row ∈ store.missingRows target names session := by
  rw [rowsBehind, mem_sortBy] at h
  cases hlast : cursor.last with
  | none => simpa [hlast, beyond] using h
  | some last =>
      simp only [hlast, Option.map_some, beyond] at h
      exact List.mem_of_mem_filter h

theorem nodup_rowsBehind (cursor : StreamCursor) :
    (store.rowsBehind names target session cursor).Nodup := by
  have hkeys := @nodup_missing_keys target session store names
  rw [rowsBehind, (sortBy_perm _ _).nodup_iff]
  cases cursor.last with
  | none => exact hkeys.of_map
  | some last => exact hkeys.of_map.filter _

theorem snapshotText_of_mem {row : VariantKeys} (hrow : row ∈ store.variantKeyRows)
    (hproject : row.projectId = target.projectId) :
    store.snapshotText target maxTextChars row.snapshotId =
      some (store.record maxTextChars target row).text := by
  obtain ⟨content, hcontent, howner, hid⟩ := store.snapshotRows row hrow
  have hsome : (store.contents.find? fun content => decide
      (content.projectId = target.projectId ∧ content.id = row.snapshotId)).isSome := by
    rw [List.find?_isSome]
    exact ⟨content, hcontent, by simp [howner, hid, hproject]⟩
  obtain ⟨found, hfound⟩ := Option.isSome_iff_exists.mp hsome
  simp only [record, snapshotText, hfound, Option.map_some, Option.getD_some]

theorem projectText_eq {row : VariantKeys} {projected : Option (Nat × String)}
    (hrow : row ∈ store.variantKeyRows) (hproject : row.projectId = target.projectId)
    (hprojected : store.Projected maxTextChars target projected) :
    store.projectText target maxTextChars row projected =
      .ok (store.record maxTextChars target row).text := by
  have htext := store.snapshotText_of_mem maxTextChars hrow hproject
  unfold projectText
  split
  case h_1 snapshot text =>
    by_cases hsame : row.snapshotId = snapshot
    · have := hprojected snapshot text rfl
      rw [← hsame, htext] at this
      cases this
      simp [hsame]
    · simp [hsame, htext]
  case h_2 => simp [htext]

theorem projectRows_eq {rows : List VariantKeys} {projected : Option (Nat × String)}
    (hrows : ∀ row ∈ rows, row ∈ store.variantKeyRows ∧ row.projectId = target.projectId)
    (hprojected : store.Projected maxTextChars target projected) :
    ∃ projected', store.projectRows target maxTextChars rows projected =
        .ok (rows.map (store.record maxTextChars target), projected') ∧
      store.Projected maxTextChars target projected' := by
  induction rows generalizing projected with
  | nil => exact ⟨projected, rfl, hprojected⟩
  | cons row rows ih =>
      obtain ⟨hrow, hproject⟩ := hrows row (by simp)
      have hnext : store.Projected maxTextChars target
          (some (row.snapshotId, (store.record maxTextChars target row).text)) := by
        intro snapshot text heq
        cases heq
        exact store.snapshotText_of_mem maxTextChars hrow hproject
      obtain ⟨projected', hrest, hvalid⟩ :=
        ih (fun row hrow => hrows row (List.mem_cons_of_mem _ hrow)) hnext
      refine ⟨projected', ?_, hvalid⟩
      simp only [projectRows, store.projectText_eq maxTextChars hrow hproject hprojected, hrest,
        bind, Except.bind, pure, Except.pure]
      rfl

/-- The rows of a batch are the first ones behind the cursor. -/
theorem nextBatch_eq {cursor : StreamCursor} (batchSize : Nat)
    (hout : session.outstanding = none)
    (hprojected : store.Projected maxTextChars target cursor.projected) :
    match ((store.rowsBehind names target session cursor).take batchSize).getLast? with
    | none => store.nextBatch target names batchSize maxTextChars session cursor = .ok none
    | some last => ∃ projected', store.nextBatch target names batchSize maxTextChars session cursor =
          .ok (some (((store.rowsBehind names target session cursor).take batchSize).map
            (store.record maxTextChars target),
            { last := some (last.snapshotId, last.rowKey), projected := projected' })) ∧
        store.Projected maxTextChars target projected' := by
  have hseek := seek_eq VariantKeys.snapshotId VariantKeys.rowKey
    (@nodup_missing_keys target session store names) batchSize cursor.last
  have hrows : ∀ row ∈ (store.rowsBehind names target session cursor).take batchSize,
      row ∈ store.variantKeyRows ∧ row.projectId = target.projectId := by
    intro row hrow
    have hmissing := store.missing_of_behind names (List.mem_of_mem_take hrow)
    have := (store.mem_missingRows names).mp hmissing
    exact ⟨this.1.1, this.1.2.1⟩
  obtain ⟨projected', hproject, hvalid⟩ := store.projectRows_eq maxTextChars hrows hprojected
  unfold nextBatch
  simp only [hout, ne_eq, not_true_eq_false, if_false, hseek]
  change match ((store.rowsBehind names target session cursor).take batchSize).getLast? with
    | none => _
    | some last => _
  cases hlast : ((store.rowsBehind names target session cursor).take batchSize).getLast? with
  | none => rw [← rowsBehind, hlast]
  | some last =>
      refine ⟨projected', ?_, hvalid⟩
      rw [← rowsBehind, hlast]
      simp [hproject, bind, Except.bind, pure, Except.pure]

/-! ## The whole stream -/

/-- What a stream is due to yield. -/
def missingRecords (target : EmbeddingTarget) (session : EmbeddingSession) :
    List EmbeddingRecord :=
  (store.rowsBehind names target session {}).map (store.record maxTextChars target)

/-- The consumer did not settle the last batch, which is the `number`-th or a later one. -/
def Unsettled (consumer : Consumer) (number : Nat) (batches : List (List EmbeddingRecord)) : Prop :=
  ∃ init batch, batches = init ++ [batch] ∧ ¬ Settles (consumer (number + init.length) batch)

variable {store names maxTextChars}

/-- Attachments of a batch leave the rows behind it. -/
theorem rowsBehind_step {cursor : StreamCursor} {batchSize : Nat} {last : VariantKeys}
    {rest : List VariantKeys} {session' : EmbeddingSession} (projected : Option (Nat × String))
    (hrest : store.rowsBehind names target session cursor = rest)
    (hlast : (rest.take batchSize).getLast? = some last)
    (hconsuming : Consuming ((rest.take batchSize).map (store.record maxTextChars target)) target
      session session') :
    store.rowsBehind names target session'
      { last := some (last.snapshotId, last.rowKey), projected } = rest.drop batchSize := by
  let keep : VariantKeys → Bool := fun row => decide (∀ space ∈ session'.embeddingNamespace target,
    (⟨row.projectId, row.id, space⟩ : AttachmentKey) ∉ session'.attachments)
  have hmissing : ∀ (session : EmbeddingSession) (row : VariantKeys),
      row.projectId = target.projectId → ((∀ space ∈ session.embeddingNamespace target,
        (⟨row.projectId, row.id, space⟩ : AttachmentKey) ∉ session.attachments) ↔
          ¬ session.Attached target row.id) := by
    intro session row hproject
    simp [Attached, hproject]
  have hkeep : ∀ row, row.projectId = target.projectId →
      (keep row = true ↔ ¬ session'.Attached target row.id) := by
    intro row hproject
    rw [← hmissing session' row hproject, decide_eq_true_eq]
  have hfilter : store.missingRows target names session' =
      (store.missingRows target names session).filter keep := by
    unfold missingRows
    rw [List.filter_filter]
    apply List.filter_congr
    intro row _
    by_cases hproject : row.projectId = target.projectId
    · have hkept := hconsuming.kept row.id
      rw [Bool.eq_iff_iff, Bool.and_eq_true, hkeep row hproject, decide_eq_true_eq,
        decide_eq_true_eq, hmissing session row hproject, hmissing session' row hproject]
      tauto
    · simp [hproject]
  have hall : ∀ row ∈ rest.drop batchSize, keep row = true := by
    intro row hrow
    have hmissing := store.missing_of_behind names (hrest ▸ List.mem_of_mem_drop hrow)
    obtain ⟨⟨hmem, hproject, -⟩, hnot⟩ := (store.mem_missingRows names).mp hmissing
    rw [hkeep row hproject]
    intro hattached
    rcases hconsuming.added row.id hattached with hattached | ⟨record, hrecord, hid⟩
    · exact hnot hattached
    · -- the row would be in the batch and behind it
      obtain ⟨other, hother, rfl⟩ := List.mem_map.mp hrecord
      have hissued := store.missing_of_behind names (hrest ▸ List.mem_of_mem_take hother)
      obtain ⟨⟨hmem', hproject', -⟩, -⟩ := (store.mem_missingRows names).mp hissued
      have hsame : other = row := by
        apply List.inj_on_of_nodup_map store.idKeys hmem' hmem
        rw [hproject, hproject', ← hid]
        rfl
      subst hsame
      have hnodup := @nodup_rowsBehind target session store names cursor
      rw [hrest, ← List.take_append_drop batchSize rest, List.nodup_append'] at hnodup
      exact hnodup.2.2 hother hrow
  have hstep := sortBy_beyond_page (groupItem VariantKeys.snapshotId VariantKeys.rowKey)
    (store.nodup_missing_keys names) hrest hlast hall
  rw [rowsBehind, hfilter]
  exact hstep

theorem stream_yields (consumer : Consumer) {batchSize : Nat} (hsize : 0 < batchSize)
    {fuel : Nat} (number : Nat) (cursor : StreamCursor) {rest : List VariantKeys}
    (hsound : session.Sound) (hprojected : store.Projected maxTextChars target cursor.projected)
    (hrest : store.rowsBehind names target session cursor = rest) (hfuel : rest.length < fuel) :
    ∃ batches outcome,
      store.stream target names batchSize maxTextChars consumer fuel number session cursor =
        some (batches, outcome) ∧
      (∀ batch ∈ batches, batch ≠ [] ∧ batch.length ≤ batchSize) ∧
      (outcome = .finished ∧
          batches.flatten = rest.map (store.record maxTextChars target) ∨
        outcome = .raised .outstanding ∧
          batches.flatten <+: rest.map (store.record maxTextChars target) ∧
          (batches = [] ∧ session.outstanding ≠ none ∨ Unsettled consumer number batches)) := by
  induction fuel generalizing number session cursor rest with
  | zero => simp at hfuel
  | succ fuel ih =>
      unfold stream
      by_cases hout : session.outstanding = none
      swap
      · have hnext : store.nextBatch target names batchSize maxTextChars session cursor =
            .error .outstanding := by
          simp [nextBatch, hout]
        exact ⟨[], .raised .outstanding, by simp [hnext], by simp, .inr ⟨rfl, by simp, .inl ⟨rfl, hout⟩⟩⟩
      have hnext := store.nextBatch_eq names maxTextChars batchSize hout hprojected
      rw [hrest] at hnext
      cases hlast : (rest.take batchSize).getLast? with
      | none =>
          have hempty : rest = [] := by
            rw [List.getLast?_eq_none_iff, List.take_eq_nil_iff] at hlast
            exact hlast.resolve_left (by omega)
          simp only [hlast] at hnext
          exact ⟨[], .finished, by simp [hnext], by simp, .inl ⟨rfl, by simp [hempty]⟩⟩
      | some last =>
          simp only [hlast] at hnext
          obtain ⟨projected', hnext, hvalid⟩ := hnext
          let batch := (rest.take batchSize).map (store.record maxTextChars target)
          let issued : EmbeddingSession := ⟨session.namespaces, session.attachments, some ⟨batch, none⟩⟩
          let calls := consumer number batch
          have hissued : Consuming batch target session issued := by
            refine ⟨hsound, fun _ h => h, fun _ h => .inl h, ?_, ?_⟩
            · intro state hstate
              cases hstate
              exact List.Subset.refl _
            · intro state hstate missing hmissing
              cases hstate
              cases hmissing
          have hconsumed := hissued.foldl calls
          have hbehind := rowsBehind_step projected' hrest hlast hconsumed
          have hne : rest ≠ [] := by
            rintro rfl
            simp at hlast
          have hshort : (rest.drop batchSize).length < fuel := by
            have := List.length_pos_of_ne_nil hne
            rw [List.length_drop]
            omega
          obtain ⟨batches, outcome, hstream, hsizes, hanswer⟩ :=
            ih (number + 1) _ hconsumed.sound hvalid hbehind hshort
          have hbatch : batch ≠ [] ∧ batch.length ≤ batchSize := by
            constructor
            · simpa [batch, hne] using hsize.ne'
            · simp [batch]
          have hflatten : rest.map (store.record maxTextChars target) =
              batch ++ (rest.drop batchSize).map (store.record maxTextChars target) := by
            rw [← List.map_append, List.take_append_drop]
          refine ⟨batch :: batches, outcome, ?_, ?_, ?_⟩
          · rw [hnext]
            simp only
            rw [hstream, Option.map_some]
          · intro other hother
            rcases List.mem_cons.mp hother with rfl | hother
            · exact hbatch
            · exact hsizes other hother
          · rw [hflatten, List.flatten_cons]
            rcases hanswer with ⟨hdone, hwhole⟩ | ⟨hraised, hprefix, hlast⟩
            · exact .inl ⟨hdone, by rw [hwhole]⟩
            · refine .inr ⟨hraised, (List.prefix_append_right_inj batch).mpr hprefix, .inr ?_⟩
              rcases hlast with ⟨rfl, hleft⟩ | ⟨init, final, rfl, hleft⟩
              · refine ⟨[], batch, rfl, fun hsettles => hleft ?_⟩
                exact outstanding_issued rfl hsettles
              · refine ⟨batch :: init, final, rfl, ?_⟩
                rwa [List.length_cons, Nat.add_comm init.length, ← Nat.add_assoc]

/-- Two variants share a snapshot, a third one has its own. -/
def sharedSnapshots : EmbeddingStore where
  projectRoot := some "/p"
  buildScope := BuildScope.default
  projects := [⟨1, "/p"⟩]
  symbols := []
  variants := []
  variantKeys := SymbolStore.variantKeys_nil
  variantKeyRows := [⟨1, "a", "default", 5, 1⟩, ⟨1, "b", "default", 5, 2⟩,
    ⟨1, "c", "default", 6, 3⟩]
  contents := [⟨1, 5, "n::f", "void f()", "", ""⟩, ⟨1, 6, "n::g", "", "", "void g() {}"⟩]
  namespaces := []
  attachments := []
  rowKeys := by decide
  idKeys := by decide
  snapshotRows := by simp
  attachmentSpaces := by simp

/-- The consumer that attaches the first variant only. -/
def attachFirst : Consumer := fun _ _ => [.putContent fun record => record.variantId = "a"]

end EmbeddingStore

end CppContextEngine.Storage
