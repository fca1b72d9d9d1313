/-
  Post-images.

  A `PostImage` row carries the full state of a row after a write, and follows the
  delta row of the write with the same `cdc$time`.  The router forwards both as
  upserts with one writetime, and the node skips an upsert whose writetime is not
  later than the stored one: after the delta row its post-image is stale.

  `postimage_iff`: the document is the post-image in the end iff it was before, and
  both rows were skipped.
-/
import Tantylla.Ingestor.Columns

namespace Tantylla

open OrdMap

/-- The document of a post-image: the metadata fields, then every column with a value. -/
def postimageDoc (F : Formats) (row : CDCRow) : List (String × Json) :=
  row.columns.foldl (putColumn F) (cdcFields F row)

/-- A post-image is delivered as an upsert. -/
theorem postimage_delivered {C : RouterCrates} {router : Router} {p : CDCRow}
    {o : IndexOperation} (hp : p.operation = .postImage) (ho : router.operationOf C p = some o) :
    o.type = .upsert ∧ extractWritetimeFromTimeuuid C.getTimestamp p.time = some o.writetime ∧
      o.payloadJson = C.jsonToString (.obj (postimageDoc C.toFormats p)) := by
  obtain ⟨ht, hw, hpay⟩ := Router.operation_of_forward (by rw [hp]; rfl) ho
  rw [Router.payloadOf, if_pos hp] at hpay
  exact ⟨ht, hw, congrArg Prod.fst hpay⟩

/-- The number of the row within its batch is in its metadata fields. -/
theorem find_batchSeq (F : Formats) (row : CDCRow) :
    find "_cdc_batch_seq" (cdcFields F row) = some (.num (.int row.batchSeqNo)) := by
  unfold cdcFields
  cases row.ttl with
  | none => exact find_put_self ..
  | some ttl => exact (find_put_ne (by decide) ..).trans (find_put_self ..)

namespace Engine

variable {X : Crates} {C : RouterCrates} {router : Router} {s : Engine} {r p : CDCRow}
  {o o' : IndexOperation}

/-- The document of `id` is the post-image of the row `p`. -/
def Installed (F : Formats) (p : CDCRow) (id : String) (s : Engine) : Prop :=
  ∃ d, s.live id = [d] ∧ d.document = [.obj (postimageDoc F p)]

/-- A document with the writetime of the delta row is stored, and it is the post-image. -/
def Tied (F : Formats) (p : CDCRow) (o : IndexOperation) (s : Engine) : Prop :=
  (∃ c, s.findCachedOrIndexed o.id = some c ∧ c.writetime = o.writetime) ∧ Installed F p o.id s

/-- A delta row leaves its own number in the document, not that of its post-image. -/
theorem get_batchSeq (hr : r.operation = .rowInsert ∨ r.operation = .rowUpdate)
    (ho : router.operationOf C r = some o)
    (hread : X.fromStr (C.jsonToString (.obj (deltaDoc C.toFormats r))) =
      some (.obj (deltaDoc C.toFormats r)))
    (hc : "_cdc_batch_seq" ∉ r.columns.map Column.name) (body : Json) :
    (foldStep X body o).get "_cdc_batch_seq" = some (.num (.int r.batchSeqNo)) := by
  obtain ⟨-, -, hp, hdel⟩ := write_delivered hr ho hread
  have hne (d) (h : d ∈ deltasOf C.toFormats r) : d.column ≠ "_cdc_batch_seq" := by
    obtain ⟨c, hcm, h⟩ := List.mem_filterMap.1 h
    obtain ⟨ds, -, h⟩ := Option.bind_eq_some_iff.1 h
    rw [column_of_collectionDelta h]
    exact fun he => hc (he ▸ List.mem_map_of_mem hcm)
  have hfind : find "_cdc_batch_seq" (deltaDoc C.toFormats r) =
      some (.num (.int r.batchSeqNo)) := by
    rw [deltaDoc, find_foldl_putColumn_of_ne fun h => hc ((List.filter_sublist.map _).mem h),
      find_batchSeq]
  rw [foldStep, hp, Option.getD_some, hdel,
    get_applyCollectionDeltas_of_ne X.fromStr hne, get_mergeJson (sorted_deltaDoc r), hfind,
    Option.map_some, Option.some_or]
  have hnum : ¬ (Json.num (.int r.batchSeqNo)).IsObj := by simp [Json.IsObj]
  simp only [mergeJson_of_not_isObj _ hnum]

/-- The document that a processed delta row leaves is not its post-image. -/
theorem not_installed_of_processed (hX : X.Stores)
    (hr : r.operation = .rowInsert ∨ r.operation = .rowUpdate)
    (ho : router.operationOf C r = some o) (hseq : p.batchSeqNo ≠ r.batchSeqNo)
    (hread : X.fromStr (C.jsonToString (.obj (deltaDoc C.toFormats r))) =
      some (.obj (deltaDoc C.toFormats r)))
    (hc : "_cdc_batch_seq" ∉ (r.columns ++ p.columns).map Column.name)
    (h : (processOp X true s o).2 = .processed) :
    ¬ Installed C.toFormats p o.id (processOp X true s o).1 := by
  rw [List.map_append, List.mem_append, not_or] at hc
  obtain ⟨ht, -, hpay, -⟩ := write_delivered hr ho hread
  obtain ⟨d, hlive, hbody⟩ := live_of_processed hX ht ⟨_, hpay, _, rfl, nofun⟩ h
  rintro ⟨e, he, hdoc⟩
  rw [hlive] at he
  cases he
  -- the number of the row is in both documents
  have hget : d.body.get "_cdc_batch_seq" = some (.num (.int r.batchSeqNo)) := by
    rw [hbody, X.get_asStored, get_batchSeq hr ho hread hc.1 (s.foundBody o.id)]
    rfl
  rw [TantivyDoc.body, hdoc] at hget
  have hpost : find "_cdc_batch_seq" (postimageDoc C.toFormats p) =
      some (.num (.int p.batchSeqNo)) := by
    rw [postimageDoc, find_foldl_putColumn_of_ne hc.2, find_batchSeq]
  change find "_cdc_batch_seq" (postimageDoc C.toFormats p) = _ at hget
  rw [hpost, Option.some.injEq, Json.num.injEq, Number.int.injEq] at hget
  exact hseq hget

/-- After an upsert that is processed, one with no later writetime is skipped. -/
theorem stale_after_processed {addOk : Bool} (ht : o.type = .upsert)
    (h : (processOp X addOk s o).2 = .processed) (ht' : o'.type = .upsert) (hid : o'.id = o.id)
    (hw : o'.writetime ≤ o.writetime) : processOp X true (processOp X addOk s o).1 o' =
      ((processOp X addOk s o).1, .stale) := by
  obtain ⟨-, d, -, hs⟩ := stored_of_processed ht h
  refine processOp_of_stale X true (Or.inl ht') ?_
  rw [hs, hid, find_of_cached (c := upsertDoc X s o) (OrdMap.get?_insert_self ..)]
  exact isStale_iff.2 ⟨_, rfl, hw⟩

/-- **The document is the post-image in the end iff it was before, under the writetime of the
    two rows**: both are skipped then.  (That a delta row which is processed leaves another
    document rests on the number of the row: no column may have the name of that field.) -/
theorem postimage_iff (hX : X.Stores)
    (hr : r.operation = .rowInsert ∨ r.operation = .rowUpdate) (hp : p.operation = .postImage)
    (ho : router.operationOf C r = some o) (ho' : router.operationOf C p = some o')
    (htime : p.time = r.time) (hid : o'.id = o.id) (hseq : p.batchSeqNo ≠ r.batchSeqNo)
    (hread : X.fromStr (C.jsonToString (.obj (deltaDoc C.toFormats r))) =
      some (.obj (deltaDoc C.toFormats r)))
    (hnew : ∀ c, s.findCachedOrIndexed o.id = some c → c.writetime ≤ o.writetime) :
    let s' := (processOp X true (processOp X true s o).1 o').1
    (Tied C.toFormats p o s → Installed C.toFormats p o.id s') ∧
    ("_cdc_batch_seq" ∉ (r.columns ++ p.columns).map Column.name →
      Installed C.toFormats p o.id s' → Tied C.toFormats p o s) := by
  obtain ⟨ht, hw, hpay, -⟩ := write_delivered hr ho hread
  obtain ⟨ht', hw', -⟩ := postimage_delivered hp ho'
  have hwt : o'.writetime = o.writetime := by
    rw [htime, hw, Option.some.injEq] at hw'
    exact hw'.symm
  by_cases hs : isStale (s.findCachedOrIndexed o.id) o.writetime
  · -- both rows are skipped
    have hkeep : (processOp X true (processOp X true s o).1 o').1 = s := by
      rw [processOp_of_stale X true (Or.inl ht) hs,
        processOp_of_stale X true (Or.inl ht') (by rw [hid, hwt]; exact hs)]
    obtain ⟨c, hc, hle⟩ := isStale_iff.1 hs
    rw [hkeep]
    exact ⟨fun h => h.2, fun _ h => ⟨⟨c, hc, le_antisymm (hnew c hc) hle⟩, h⟩⟩
  · -- the delta row is processed, and its post-image skipped
    have hpl : PayloadHas X [] o := ⟨_, hpay, _, rfl, nofun⟩
    have hobj : (upsertDoc X s o).doc.IsObj := (upsertBody_hasKeys hpl (Or.inr hpl)).isObj
    have hfit : (o.writetime : ℤ) ≤ i64Max := extractWritetimeFromTimeuuid_le hw
    obtain ⟨d, hd⟩ := storedDoc_isSome hX.toLawful hobj hfit
    have hproc : (processOp X true s o).2 = .processed := by rw [processOp_of_stored X ht hs hd]
    rw [stale_after_processed ht hproc ht' hid hwt.le]
    refine ⟨fun h => absurd h.1 ?_, fun hc h => ?_⟩
    · rintro ⟨c, hc, hcw⟩
      exact hs (isStale_iff.2 ⟨c, hc, hcw.ge⟩)
    · exact absurd h (not_installed_of_processed hX hr ho hseq hread hc hproc)

/-! ## Sample rows -/

/-- A row of the key `x` with the column `a`. -/
def imageRow (operation : OperationType) (time : Uuid) (batchSeqNo : ℤ) (a : Option ℤ) :
    CDCRow where
  streamId := "00"
  time := time
  batchSeqNo := batchSeqNo
  operation := operation
  ttl := none
  columns := [⟨"k", some (.text "x"), false, none⟩, ⟨"a", a.map .int, a.isNone, none⟩]

/-- An insert of the column `a`. -/
def insertRow : CDCRow := imageRow .rowInsert 0x1419d6801dd211b28000000000000000 0 (some 1)

/-- The update that takes the column away. -/
def updateRow : CDCRow := imageRow .rowUpdate 0x14b26d001dd211b28000000000000000 0 none

/-- The post-image of the update. -/
def postimageRow : CDCRow := imageRow .postImage 0x14b26d001dd211b28000000000000000 1 none

/-- Their payloads. -/
def imageTexts : List String :=
  ["\x7b\"_cdc_batch_seq\":0,\"_cdc_stream_id\":\"00\"," ++
      "\"_cdc_time\":\"1419d680-1dd2-11b2-8000-000000000000\",\"a\":1,\"k\":\"x\"\x7d",
    "\x7b\"_cdc_batch_seq\":0,\"_cdc_stream_id\":\"00\"," ++
      "\"_cdc_time\":\"14b26d00-1dd2-11b2-8000-000000000000\",\"k\":\"x\"\x7d",
    "\x7b\"_cdc_batch_seq\":1,\"_cdc_stream_id\":\"00\"," ++
      "\"_cdc_time\":\"14b26d00-1dd2-11b2-8000-000000000000\",\"k\":\"x\"\x7d"]

/-- What they are the texts of. -/
def imagePayloads : List (String × Json) :=
  imageTexts.zip ([deltaDoc sampleRouterCrates.toFormats insertRow,
    deltaDoc sampleRouterCrates.toFormats updateRow,
    postimageDoc sampleRouterCrates.toFormats postimageRow].map .obj)

def imageCrates : Crates := .ofTexts imagePayloads

def imageRouterCrates : RouterCrates :=
  { sampleRouterCrates with
    jsonToString := fun j => ((imagePayloads.find? fun p => p.2 = j).map Prod.fst).getD "" }

/-- The operation a row is delivered as. -/
def imageOp (writetime : ℕ) (text : Fin 3) : IndexOperation where
  id := "x"
  opType := 1
  writetime := writetime
  cdcTtl := none
  payloadJson := imageTexts.get text
  collectionDeltas := []
  partitionKey := some "x"

theorem operationOf_imageRows :
    sampleRouter.operationOf imageRouterCrates insertRow = some (imageOp 1000000 0) ∧
    sampleRouter.operationOf imageRouterCrates updateRow = some (imageOp 2000000 1) ∧
    sampleRouter.operationOf imageRouterCrates postimageRow = some (imageOp 2000000 2) := by
  decide +kernel

/-- The update and its post-image, on an empty node. -/
theorem postimage_iff_empty :
    ¬ Installed imageRouterCrates.toFormats postimageRow "x"
      (processOp imageCrates true (processOp imageCrates true (new []) (imageOp 2000000 1)).1
        (imageOp 2000000 2)).1 := by
  intro h
  obtain ⟨⟨c, hc, -⟩, -⟩ := (@postimage_iff imageCrates imageRouterCrates sampleRouter (new [])
    updateRow postimageRow _ _ (Crates.ofTexts_stores _) (Or.inr rfl) rfl
    operationOf_imageRows.2.1 operationOf_imageRows.2.2 rfl rfl (by decide) (by decide +kernel)
    (by rintro c ⟨⟩)).2 (by decide) h
  cases hc

/-- The three rows, one after the other: the post-image is skipped, and the column that it
    does not have stays in the document. -/
theorem postimage_skipped :
    sampleRouter.operationOf imageRouterCrates insertRow = some (imageOp 1000000 0) ∧
    sampleRouter.operationOf imageRouterCrates updateRow = some (imageOp 2000000 1) ∧
    sampleRouter.operationOf imageRouterCrates postimageRow = some (imageOp 2000000 2) ∧
    let s := (processOp imageCrates true (new []) (imageOp 1000000 0)).1
    let s' := (processOp imageCrates true s (imageOp 2000000 1)).1
    let s'' := (processOp imageCrates true s' (imageOp 2000000 2)).1
    (processOp imageCrates true s (imageOp 2000000 1)).2 = .processed ∧
    (processOp imageCrates true s' (imageOp 2000000 2)).2 = .stale ∧
    (s''.live "x").map (fun d => d.body.get "a") = [some (.num (.int 1))] ∧
    find "a" (postimageDoc imageRouterCrates.toFormats postimageRow) = none ∧
    ¬ Installed imageRouterCrates.toFormats postimageRow "x" s'' := by
  refine ⟨operationOf_imageRows.1, operationOf_imageRows.2.1, operationOf_imageRows.2.2,
    by decide +kernel, by decide +kernel, by decide +kernel, by decide, ?_⟩
  rintro ⟨d, hd, hdoc⟩
  have hdocs := congrArg (List.map TantivyDoc.document) hd
  rw [List.map_singleton, hdoc] at hdocs
  exact absurd hdocs (by decide +kernel)

end Engine

end Tantylla
