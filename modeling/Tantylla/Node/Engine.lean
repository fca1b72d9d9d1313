/-
  The engine of a search node (`engine/core.rs`): the write path.

  A document passes through four places:

  * `uncommittedDocs`, the engine's own cache of documents it has handed to the
    index writer;
  * `writer`, the documents the `IndexWriter` would commit now (the last commit,
    with the deletions and additions made since applied in order);
  * `committed`, the documents of the last commit, which a restart opens;
  * `reader`, the snapshot the `IndexReader` serves.  Its reload policy is
    `OnCommitWithDelay`, so it follows `committed` at some later time.

  `processOp` is one iteration of the loop of `process_batch` and `processBatch`
  the loop; `findCachedOrIndexed` is the lookup both writes and deletes are guarded
  by; `committerTick` and `prunerTick` are the bodies of the two background loops.
-/
import Tantylla.Node.Merge

namespace Tantylla

/-! ## Documents -/

/-- A document of the cache (`Doc`); `generation` is a `u64`. -/
structure Doc where
  id : String
  partitionKey : String
  doc : Json
  expiresAt : ℤ
  writetime : ℕ
  generation : ℕ
  deriving DecidableEq

/-- A document of the index: the stored values of the schema's fields.  `expires_at`
    and `writetime` are `i64` fields; `document` is a JSON field, with as many values
    as were added. -/
structure TantivyDoc where
  id : String
  partitionKey : String
  expiresAt : ℤ
  document : List Json
  writetime : ℕ
  expiresAt_fits : i64Min ≤ expiresAt ∧ expiresAt ≤ i64Max
  writetime_fits : (writetime : ℤ) ≤ i64Max
  deriving DecidableEq

namespace TantivyDoc

/-- `Document::to_json`: every field that has values, as an array. -/
def toJson (d : TantivyDoc) : Json :=
  .obj ((if d.document = [] then [] else [("document", .arr d.document)]) ++
    [("expires_at", .arr [.num (.int d.expiresAt)]), ("id", .arr [.str d.id]),
      ("partition_key", .arr [.str d.partitionKey]), ("writetime", .arr [.num (.int d.writetime)])])

/-- The document's body: the first value of the JSON field. -/
def body (d : TantivyDoc) : Json := d.document.head?.getD (.obj [])

end TantivyDoc

/-- `get(key).and_then(as_array).and_then(first)`. -/
def firstOf (key : String) (v : Json) : Option Json :=
  ((v.get key).bind Json.asArray).bind List.head?

/-- The document `find_cached_or_indexed` rebuilds from the JSON of a stored one. -/
def Doc.ofStored (id : String) (fullDocVal : Json) : Doc where
  id := id
  partitionKey := ((firstOf "partition_key" fullDocVal).bind Json.asStr).getD ""
  doc := match fullDocVal.get "document" with
    | some (.arr (v :: _)) => v
    | some other => other
    | none => .obj []
  expiresAt := ((firstOf "expires_at" fullDocVal).bind Json.asI64).getD i64Max
  writetime := ((firstOf "writetime" fullDocVal).bind Json.asU64).getD 0
  generation := 0

/-- The wrapper handed to the index (`full_doc_wrapper`). -/
def Doc.fullDocWrapper (d : Doc) : Json :=
  .obj [("document", d.doc), ("expires_at", .num (.int d.expiresAt)), ("id", .str d.id),
    ("partition_key", .str d.partitionKey), ("writetime", .num (.int d.writetime))]

theorem Doc.ofStored_toJson (id : String) (d : TantivyDoc) : Doc.ofStored id d.toJson =
    { id := id, partitionKey := d.partitionKey, doc := d.body, expiresAt := d.expiresAt,
      writetime := d.writetime, generation := 0 } := by
  have he : Json.asI64 (.num (.int d.expiresAt)) = some d.expiresAt := if_pos d.expiresAt_fits
  have hw : Json.asU64 (.num (.int d.writetime)) = some d.writetime := by
    have h : (d.writetime : ℤ) ≤ u64Max := d.writetime_fits.trans (by decide)
    rw [Json.asU64, if_pos ⟨by omega, h⟩, Int.toNat_natCast]
  rcases hd : d.document with _ | ⟨v, vs⟩ <;>
    simp [Doc.ofStored, TantivyDoc.toJson, TantivyDoc.body, firstOf, Json.get, OrdMap.find,
      Json.asArray, Json.asStr, hd, he, hw]

/-! ## The engine -/

/-- The functions of other crates that the engine calls. -/
structure Crates where
  /-- `serde_json::from_str::<Value>` -/
  fromStr : String → Option Json
  /-- `TantivyDocument::parse_json` for the engine's schema, on the text of a wrapper -/
  parseJson : Json → Option TantivyDoc
  /-- A text inside a document as the JSON field stores and returns it.  One that is an
      RFC 3339 date is stored as the date and comes back in UTC. -/
  storedText : String → String

/-- A body as the index returns it. -/
def Crates.asStored (X : Crates) (body : Json) : Json := body.mapText X.storedText

/-- The index returns the body as it was written: no text in it is a date that is written
    in another way in UTC. -/
def Crates.AsWritten (X : Crates) (body : Json) : Prop := X.asStored body = body

instance (X : Crates) (body : Json) : Decidable (X.AsWritten body) :=
  inferInstanceAs (Decidable (X.asStored body = body))

theorem Crates.get_asStored (X : Crates) (k : String) (j : Json) :
    (X.asStored j).get k = (j.get k).map X.asStored := Json.get_mapText k j

theorem Crates.asStored_mergeJson (X : Crates) (a b : Json) :
    X.asStored (mergeJson a b) = mergeJson (X.asStored a) (X.asStored b) :=
  mapText_mergeJson X.storedText b a

theorem Crates.AsWritten.mergeJson {X : Crates} {a b : Json} (ha : X.AsWritten a)
    (hb : X.AsWritten b) : X.AsWritten (mergeJson a b) :=
  (X.asStored_mergeJson a b).trans (congrArg₂ Tantylla.mergeJson ha hb)

/-- What the engine relies on of `parse_json`: the document it makes holds the fields of
    the wrapper, and it accepts a wrapper whose document is an object when the numbers
    fit `i64`. -/
structure Crates.Lawful (X : Crates) : Prop where
  fields : ∀ (d : Doc) t, X.parseJson d.fullDocWrapper = some t →
    t.id = d.id ∧ t.partitionKey = d.partitionKey ∧ t.expiresAt = d.expiresAt ∧
      t.writetime = d.writetime
  accepts : ∀ d : Doc, d.doc.IsObj → i64Min ≤ d.expiresAt ∧ d.expiresAt ≤ i64Max →
    d.writetime ≤ i64Max → (X.parseJson d.fullDocWrapper).isSome

/-- What it relies on for the bodies: an object is stored as one value, with the texts in
    it as the JSON field keeps them; what is returned is a text that it keeps. -/
structure Crates.Stores (X : Crates) : Prop extends Crates.Lawful X where
  document : ∀ (d : Doc) t, d.doc.IsObj → X.parseJson d.fullDocWrapper = some t →
    t.document = [X.asStored d.doc]
  storedText_twice : ∀ s, X.storedText (X.storedText s) = X.storedText s

/-- A body that was stored is kept as it is. -/
theorem Crates.Stores.asStored_asStored {X : Crates} (hX : X.Stores) (body : Json) :
    X.asStored (X.asStored body) = X.asStored body := Json.mapText_twice hX.storedText_twice body

/-- The state of an engine. -/
structure Engine where
  writer : List TantivyDoc
  committed : List TantivyDoc
  reader : List TantivyDoc
  uncommittedDocs : OrdMap String Doc
  currentGeneration : ℕ

namespace Engine

/-- `Engine::new` on the documents of the last commit. -/
def new (committed : List TantivyDoc) : Engine where
  writer := committed
  committed := committed
  reader := committed
  uncommittedDocs := .empty
  currentGeneration := 0

/-- `writer.delete_term` on the field `id`. -/
def deleteId (s : Engine) (id : String) : Engine :=
  { s with writer := s.writer.filter fun d => d.id ≠ id }

/-- `writer.delete_term` on the field `partition_key`. -/
def deletePartition (s : Engine) (pk : String) : Engine :=
  { s with writer := s.writer.filter fun d => d.partitionKey ≠ pk }

/-- `writer.add_document`. -/
def addDocument (s : Engine) (d : TantivyDoc) : Engine :=
  { s with writer := s.writer ++ [d] }

/-- `find_cached_or_indexed`: the cache, then the reader's snapshot. -/
def findCachedOrIndexed (s : Engine) (id : String) : Option Doc :=
  match s.uncommittedDocs.get? id with
  | some d => some d
  | none => (s.reader.find? fun d => d.id = id).map fun d => Doc.ofStored id d.toJson

end Engine

/-- `i64::saturating_mul`. -/
def saturatingMulI64 (a b : ℤ) : ℤ := max i64Min (min i64Max (a * b))

/-- `u64::saturating_add`. -/
def saturatingAddU64 (a b : ℕ) : ℕ := min u64Max (a + b)

/-- When the document of an upsert expires; `i64::MAX` stands for never. -/
def IndexOperation.expiresAt (op : IndexOperation) : ℤ :=
  match op.cdcTtl with
  | some ttl =>
    let ttlMicros := (max (saturatingMulI64 ttl 1000000) 0).toNat
    let expiresAt := saturatingAddU64 op.writetime ttlMicros
    if (expiresAt : ℤ) ≤ i64Max then expiresAt else i64Max
  | none => i64Max

/-- What became of an operation.  `rejected`: `parse_json` refused the document;
    `ignored`: the type is unspecified; `failed`: `add_document` returned an error. -/
inductive Outcome where
  | processed
  | stale
  | rejected
  | ignored
  | failed
  deriving DecidableEq

namespace Engine

/-- The guard of upserts and deletes: the stored writetime is as late as the incoming
    one, or later. -/
def isStale (existing : Option Doc) (writetime : ℕ) : Bool :=
  existing.any fun d => writetime ≤ d.writetime

/-- The body an upsert gives to a document. -/
def upsertBody (X : Crates) (existing : Option Doc) (op : IndexOperation) : Json :=
  let currentDocJson := (existing.map Doc.doc).getD (.obj [])
  let patchJson := (X.fromStr op.payloadJson).getD .null
  let currentDocJson := mergeJson currentDocJson patchJson
  if op.collectionDeltas.isEmpty then currentDocJson
  else applyCollectionDeltas X.fromStr currentDocJson op.collectionDeltas

/-- The document an upsert puts into the cache. -/
def upsertDoc (X : Crates) (s : Engine) (op : IndexOperation) : Doc where
  id := op.id
  partitionKey := op.partition
  doc := upsertBody X (s.findCachedOrIndexed op.id) op
  expiresAt := op.expiresAt
  writetime := op.writetime
  generation := s.currentGeneration

/-- The document an upsert adds to the index, if `parse_json` accepts it. -/
def storedDoc (X : Crates) (s : Engine) (op : IndexOperation) : Option TantivyDoc :=
  X.parseJson (upsertDoc X s op).fullDocWrapper

/-- The branch `OpType::Upsert`.  `addOk` says whether `add_document` succeeds. -/
def upsert (X : Crates) (addOk : Bool) (s : Engine) (op : IndexOperation) : Engine × Outcome :=
  if isStale (s.findCachedOrIndexed op.id) op.writetime then (s, .stale)
  else
    let cached := { s with uncommittedDocs := s.uncommittedDocs.insert op.id (upsertDoc X s op) }
    let deleted := cached.deleteId op.id
    match storedDoc X s op with
    | some doc => if addOk then (deleted.addDocument doc, .processed) else (deleted, .failed)
    | none => (deleted, .rejected)

/-- The branch `OpType::Delete`. -/
def delete (s : Engine) (op : IndexOperation) : Engine × Outcome :=
  if isStale (s.findCachedOrIndexed op.id) op.writetime then (s, .stale)
  else
    let deleted := s.deleteId op.id
    ({ deleted with uncommittedDocs := deleted.uncommittedDocs.remove op.id }, .processed)

/-- The branch `OpType::PartitionDelete`. -/
def partitionDelete (s : Engine) (op : IndexOperation) : Engine × Outcome :=
  let pk := op.partition
  let deleted := s.deletePartition pk
  ({ deleted with
      uncommittedDocs := deleted.uncommittedDocs.retain fun _ doc => doc.partitionKey ≠ pk },
    .processed)

/-- One iteration of the loop of `process_batch`. -/
def processOp (X : Crates) (addOk : Bool) (s : Engine) (op : IndexOperation) : Engine × Outcome :=
  match op.type with
  | .upsert => upsert X addOk s op
  | .delete => delete s op
  | .partitionDelete => partitionDelete s op
  | .unspecified => (s, .ignored)

/-- The loop of `process_batch`, with its two counters; `addOk i` says whether
    `add_document` succeeds on operation `i`.  A failure leaves the loop through `?`, and
    what was applied before it stays applied. -/
def processLoop (X : Crates) (addOk : ℕ → Bool) : ℕ → Engine → ℕ → ℕ → List IndexOperation →
    Engine × Option IndexBatchResponse
  | _, s, processed, skipped, [] => (s, some ⟨processed, skipped, true⟩)
  | i, s, processed, skipped, op :: ops =>
    match processOp X (addOk i) s op with
    | (s', .processed) => processLoop X addOk (i + 1) s' (processed + 1) skipped ops
    | (s', .failed) => (s', none)
    | (s', _) => processLoop X addOk (i + 1) s' processed (skipped + 1) ops

/-- `process_batch`; no response stands for `Err`. -/
def processBatch (X : Crates) (addOk : ℕ → Bool) (s : Engine) (operations : List IndexOperation) :
    Engine × Option IndexBatchResponse :=
  processLoop X addOk 0 s 0 0 operations

end Engine

/-! ## The background loops -/

/-- How a tick of the committer goes: `try_write` may find the writer locked. -/
inductive CommitTick where
  | ok
  | failed
  | contended
  deriving DecidableEq

/-- How a tick of the pruner goes. -/
inductive PruneTick where
  | ok
  | commitFailed
  | queryFailed
  | contended
  deriving DecidableEq

namespace Engine

/-- One tick of the committer.  A commit that succeeds evicts the cached documents up to
    the current generation and starts the next; one that fails steps the counter back. -/
def committerTick (s : Engine) : CommitTick → Engine
  | .ok =>
    { s with
      committed := s.writer
      currentGeneration := (s.currentGeneration + 1) % (u64Max + 1)
      uncommittedDocs := s.uncommittedDocs.retain fun _ doc =>
        s.currentGeneration < doc.generation }
  | .failed => { s with currentGeneration := (u64Max + s.currentGeneration) % (u64Max + 1) }
  | .contended => s

/-- The writer after the pruner's `delete_query` at the time `now`. -/
def prune (s : Engine) (now : ℤ) : Engine :=
  { s with writer := s.writer.filter fun d => now < d.expiresAt }

/-- One tick of the pruner at the time `now`. -/
def prunerTick (s : Engine) (now : ℤ) : PruneTick → Engine
  | .ok => { s.prune now with committed := (s.prune now).writer }
  | .commitFailed => s.prune now
  | .queryFailed | .contended => s

end Engine

end Tantylla
