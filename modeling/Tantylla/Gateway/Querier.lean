/-
  The gateway's querier (`querier/core.rs`).

  `scatterGather` sends a request to every node, for its first `limit + offset` hits,
  gathers what the nodes answer, and cuts the page from the hits of all.  `gather` is the
  loop over the results; `gather_eq` says what it leaves in its accumulators,
  `scatterGather_error_iff` when the call fails, and `scatterGather_ok` what it returns.
-/
import Tantylla.Search.Order
import Tantylla.Lib.Tally
import Mathlib.Algebra.BigOperators.Group.List.Basic
import Mathlib.Data.List.Induction
import Mathlib.Data.List.ReduceOption

namespace Tantylla

namespace Gateway

/-- The functions of other crates that the querier calls. -/
structure Crates where
  /-- the text of the code of a status -/
  codeText : ℕ → String
  /-- a string as `Debug` shows it -/
  debugText : String → String

/-- `ScatterFail`. -/
structure ScatterFail where
  message : String
  errors : List String
  deriving DecidableEq

/-- What the loop over the results has gathered. -/
structure Gathered where
  allHits : List SearchHit
  totalHits : ℕ
  maxDuration : ℕ
  failedNodes : List String
  successfulNodes : ℕ
  facetsAgg : OrdMap String (OrdMap String ℕ)

/-- Before the loop. -/
def Gathered.start : Gathered := ⟨[], 0, 0, [], 0, .empty⟩

variable (G : Crates)

/-- The error of a node that failed. -/
def errorMsg (idx : ℕ) (e : Status) : String :=
  s!"Node {idx} search failed: {G.codeText e.code} ({G.debugText e.message})"

/-- The counts of a response, one list for each field. -/
def facetEntries (response : SearchResponse) : List (String × List (String × ℕ)) :=
  response.facets.map fun f => (f.field, f.buckets.map fun b => (b.value, b.count))

/-- The loop over the results, from the node `idx` on. -/
def gather : ℕ → Gathered → List (Except Status SearchResponse) → Gathered
  | _, g, [] => g
  | idx, g, .ok inner :: results =>
    gather (idx + 1) {
      allHits := g.allHits ++ inner.hits
      totalHits := (g.totalHits + inner.totalHits) % u64Count
      maxDuration := max g.maxDuration inner.durationMs
      failedNodes := g.failedNodes
      successfulNodes := g.successfulNodes + 1
      facetsAgg := Tally.tallyAll u64Count g.facetsAgg (facetEntries inner) } results
  | idx, g, .error e :: results =>
    gather (idx + 1) { g with failedNodes := g.failedNodes ++ [errorMsg G idx e] } results

/-- The request that goes to each node; the sum wraps. -/
def nodeReq (req : SearchRequest) : SearchRequest :=
  { req with
    limit := (req.limit + req.offset) % (u32Max + 1)
    offset := 0
    limit_fits := Nat.lt_succ_iff.1 (Nat.mod_lt _ (Nat.succ_pos _))
    offset_fits := Nat.zero_le _ }

/-- The results of the calls to the nodes. -/
def results (clients : List SearchClient) (req : SearchRequest) :
    List (Except Status SearchResponse) := clients.map fun client => client (nodeReq req)

/-- `scatter_gather`. -/
def scatterGather (H : HashOrder) (clients : List SearchClient) (req : SearchRequest) :
    Except ScatterFail SearchResponse :=
  let totalNodes := clients.length
  let g := gather G 0 .start (results clients req)
  if Consistency.ofI32 req.consistency = .all ∧ g.successfulNodes < totalNodes then
    .error {
      message := s!"Consistency ALL failed: {g.successfulNodes}/{totalNodes} nodes succeeded"
      errors := g.failedNodes }
  else if Consistency.ofI32 req.consistency ≠ .all ∧ g.successfulNodes = 0 then
    .error {
      message := s!"Consistency ANY failed: all {totalNodes} nodes failed."
      errors := g.failedNodes }
  else
    let allHits := sortBy hitCmp g.allHits
    .ok {
      hits := if allHits.length ≤ req.offset then [] else (allHits.drop req.offset).take req.limit
      totalHits := g.totalHits
      durationMs := g.maxDuration
      facets := facetResults H g.facetsAgg }

/-! ## What is gathered -/

/-- The responses among the results. -/
def answers (results : List (Except Status SearchResponse)) : List SearchResponse :=
  results.filterMap Except.toOption

theorem gather_append (idx : ℕ) (g : Gathered) (rs ss : List (Except Status SearchResponse)) :
    gather G idx g (rs ++ ss) = gather G (idx + rs.length) (gather G idx g rs) ss := by
  induction rs generalizing idx g with
  | nil => rfl
  | cons r rs ih =>
    have hlen : idx + 1 + rs.length = idx + (r :: rs).length := by
      rw [List.length_cons]; omega
    cases r with
    | ok inner => rw [List.cons_append, gather, ih, hlen, gather]
    | error e => rw [List.cons_append, gather, ih, hlen, gather]

/-- **What the loop gathers**, from the responses alone. -/
theorem gather_eq (results : List (Except Status SearchResponse)) :
    let g := gather G 0 .start results
    let inners := answers results
    g.allHits = inners.flatMap SearchResponse.hits ∧
    g.totalHits = (inners.map SearchResponse.totalHits).sum % u64Count ∧
    g.successfulNodes = inners.length ∧
    g.facetsAgg = Tally.tallyAll u64Count .empty (inners.flatMap facetEntries) := by
  induction results using List.reverseRecOn with
  | nil => exact ⟨rfl, rfl, rfl, rfl⟩
  | append_singleton results r ih =>
    intro g inners
    obtain ⟨hhits, htotal, hcount, hfacets⟩ := ih
    have hg : g = gather G (0 + results.length) (gather G 0 .start results) [r] :=
      gather_append ..
    cases r with
    | error e =>
      have hinners : inners = answers results := by
        simp [inners, answers, Except.toOption]
      rw [hg, hinners]
      exact ⟨hhits, htotal, hcount, hfacets⟩
    | ok inner =>
      have hinners : inners = answers results ++ [inner] := by
        simp [inners, answers, Except.toOption]
      rw [hg, hinners, gather, gather]
      dsimp only
      rw [hhits, htotal, hcount, hfacets]
      refine ⟨?_, ?_, ?_, ?_⟩
      · simp
      · simp [Nat.mod_add_mod]
      · simp
      · simp [Tally.tallyAll]

theorem length_answers_lt_iff {results : List (Except Status SearchResponse)} :
    (answers results).length < results.length ↔ ∃ e, .error e ∈ results := by
  unfold answers
  induction results with
  | nil => simp
  | cons r results ih =>
    cases r with
    | ok inner =>
      have hcons : (.ok inner :: results).filterMap Except.toOption =
          inner :: results.filterMap Except.toOption := List.filterMap_cons_some rfl
      rw [hcons, List.length_cons, List.length_cons, Nat.add_lt_add_iff_right, ih]
      simp
    | error e =>
      have hle := List.length_filterMap_le Except.toOption results
      rw [List.filterMap_cons_none rfl, List.length_cons]
      exact iff_of_true (by omega) ⟨e, List.mem_cons_self ..⟩

/-! ## What is returned -/

variable {G} {H : HashOrder} {clients : List SearchClient} {req : SearchRequest}

/-- **When a call fails**: under `ALL` if a node fails, else if every node does. -/
theorem scatterGather_error_iff : (∃ e, scatterGather G H clients req = .error e) ↔
    if Consistency.ofI32 req.consistency = .all then ∃ e, .error e ∈ results clients req
    else answers (results clients req) = [] := by
  obtain ⟨-, -, hcount, -⟩ := gather_eq G (results clients req)
  have hlen : (results clients req).length = clients.length := List.length_map ..
  unfold scatterGather
  dsimp only
  simp only [hcount, ← hlen]
  by_cases hall : Consistency.ofI32 req.consistency = .all
  · rw [if_pos hall]
    by_cases hlt : (answers (results clients req)).length < (results clients req).length
    · rw [if_pos ⟨hall, hlt⟩]
      exact iff_of_true ⟨_, rfl⟩ (length_answers_lt_iff.1 hlt)
    · rw [if_neg fun h => hlt h.2, if_neg fun h => h.1 hall]
      refine iff_of_false ?_ fun h => hlt (length_answers_lt_iff.2 h)
      rintro ⟨e, he⟩
      cases he
  · rw [if_neg hall, if_neg fun h => hall h.1]
    by_cases hnil : answers (results clients req) = []
    · rw [if_pos ⟨hall, by rw [hnil]; rfl⟩]
      exact iff_of_true ⟨_, rfl⟩ hnil
    · rw [if_neg fun h => hnil (List.length_eq_zero_iff.1 h.2)]
      refine iff_of_false ?_ hnil
      rintro ⟨e, he⟩
      cases he

/-- **What a call returns that does not fail**: the page of the sorted hits of all, the sum
    of the totals and the facets of all counts. -/
theorem scatterGather_ok {response : SearchResponse}
    (h : scatterGather G H clients req = .ok response) :
    let inners := answers (results clients req)
    response.hits = ((sortBy hitCmp (inners.flatMap SearchResponse.hits)).drop req.offset).take
      req.limit ∧
    response.totalHits = (inners.map SearchResponse.totalHits).sum % u64Count ∧
    response.facets =
      facetResults H (Tally.tallyAll u64Count .empty (inners.flatMap facetEntries)) := by
  obtain ⟨hhits, htotal, -, hfacets⟩ := gather_eq G (results clients req)
  unfold scatterGather at h
  dsimp only at h
  have hpage (hits : List SearchHit) : (if hits.length ≤ req.offset then [] else
      (hits.drop req.offset).take req.limit) = (hits.drop req.offset).take req.limit := by
    split_ifs with hle
    · rw [List.drop_eq_nil_of_le hle, List.take_nil]
    · rfl
  rw [hpage] at h
  split_ifs at h
  cases h
  exact ⟨by rw [hhits], htotal, congrArg (facetResults H) hfacets⟩

/-! ## Nodes that answer, and nodes that fail -/

variable {α : Type*} {R : SearchResponse → α → Prop}

/-- The client answers the request that goes to each node with a response that `R` relates to
    `a`; or it fails. -/
def AnswersWith (R : SearchResponse → α → Prop) (req : SearchRequest) (client : SearchClient) :
    Option α → Prop
  | some a => ∃ r, client (nodeReq req) = .ok r ∧ R r a
  | none => ∃ e, client (nodeReq req) = .error e

theorem error_mem_results_iff {nodes : List (Option α)}
    (h : List.Forall₂ (AnswersWith R req) clients nodes) :
    (∃ e, .error e ∈ results clients req) ↔ none ∈ nodes := by
  unfold results
  induction h with
  | nil => simp
  | @cons client a clients nodes hc _ ih =>
    rw [List.map_cons, List.mem_cons, ← ih]
    cases a with
    | none =>
      obtain ⟨e, he⟩ := hc
      exact iff_of_true ⟨e, he ▸ List.mem_cons_self ..⟩ (Or.inl rfl)
    | some a =>
      obtain ⟨r, hr, -⟩ := hc
      rw [hr]
      simp

theorem reduceOption_map_some (l : List α) : (l.map some).reduceOption = l := by
  rw [List.reduceOption, List.filterMap_map]
  exact List.filterMap_some

theorem answers_results {nodes : List (Option α)}
    (h : List.Forall₂ (AnswersWith R req) clients nodes) :
    List.Forall₂ R (answers (results clients req)) nodes.reduceOption := by
  unfold answers results
  induction h with
  | nil => exact .nil
  | @cons client a clients nodes hc _ ih =>
    cases a with
    | none =>
      obtain ⟨e, he⟩ := hc
      rw [List.map_cons, he, List.filterMap_cons_none rfl, List.reduceOption_cons_of_none]
      exact ih
    | some a =>
      obtain ⟨r, hr, ha⟩ := hc
      have hcons (rs : List (Except Status SearchResponse)) :
          (.ok r :: rs).filterMap Except.toOption = r :: rs.filterMap Except.toOption :=
        List.filterMap_cons_some rfl
      rw [List.map_cons, hr, hcons, List.reduceOption_cons_of_some]
      exact .cons ha ih

/-! ## Sample requests -/

def sampleGateway : Crates where
  codeText n := toString n
  debugText s := s

/-- The second hit and the one after it. -/
def sampleRequest (group : Bool) : SearchRequest where
  query := "x"
  limit := 2
  offset := 1
  consistency := 1
  defaultFields := []
  facetFields := ["tag"]
  boostFields := []
  groupByPartition := group
  limit_fits := by decide
  offset_fits := by decide

end Gateway

end Tantylla
