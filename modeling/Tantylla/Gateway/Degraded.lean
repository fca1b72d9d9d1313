/-
  Searches while nodes fail (`querier/core.rs`, `server/handlers.rs`).

  Under `ANY` the nodes that fail are logged and ignored, under `ALL` any of them fails
  the call.  `degraded_search` says what a caller of the gateway gets, for any clients: the
  response of the nodes that answer, as if there were no others, or a list of the nodes
  that failed, each by its number.
-/
import Tantylla.Gateway.Querier

namespace Tantylla

namespace Gateway

variable (G : Crates) (H : HashOrder)

/-- What the caller of the gateway gets: the code of the status and the body. -/
structure SearchReply where
  statusCode : ℕ
  body : Except ScatterFail SearchResponse

/-- `search_handler`. -/
def searchHandler (clients : List SearchClient) (payload : SearchRequest) : SearchReply :=
  match scatterGather G H clients payload with
  | .ok response => ⟨200, .ok response⟩
  | .error e => ⟨500, .error e⟩

/-- The error of the node with the number `idx`, if it fails. -/
def failure (p : Except Status SearchResponse × ℕ) : Option String :=
  match p.1 with
  | .ok _ => none
  | .error e => some (errorMsg G p.2 e)

/-- The client answers the request for a page. -/
def answersTo (req : SearchRequest) (client : SearchClient) : Bool := (client (nodeReq req)).isOk

variable {G H}

/-! ## What the loop keeps of the nodes that fail -/

theorem failedNodes_gather (idx : ℕ) (g : Gathered) (rs : List (Except Status SearchResponse)) :
    (gather G idx g rs).failedNodes = g.failedNodes ++ (rs.zipIdx idx).filterMap (failure G) := by
  induction rs generalizing idx g with
  | nil => simp [gather]
  | cons r rs ih =>
    cases r with
    | ok inner =>
      have hnone : failure G (.ok inner, idx) = none := rfl
      rw [gather, ih, List.zipIdx_cons, List.filterMap_cons_none hnone]
    | error e =>
      have hsome : failure G (.error e, idx) = some (errorMsg G idx e) := rfl
      rw [gather, ih, List.zipIdx_cons, List.filterMap_cons_some hsome]
      simp

/-- What is gathered, without the errors. -/
def Gathered.answered (g : Gathered) : Gathered := { g with failedNodes := [] }

theorem answered_gather {idx idx' : ℕ} {g g' : Gathered} (rs : List (Except Status SearchResponse))
    (h : g.answered = g'.answered) :
    (gather G idx g rs).answered = (gather G idx' g' (rs.filter Except.isOk)).answered := by
  induction rs generalizing idx idx' g g' with
  | nil => exact h
  | cons r rs ih =>
    obtain ⟨hits, total, duration, failed, count, facets⟩ := g
    obtain ⟨hits', total', duration', failed', count', facets'⟩ := g'
    simp only [Gathered.answered, Gathered.mk.injEq] at h
    obtain ⟨rfl, rfl, rfl, -, rfl, rfl⟩ := h
    cases r with
    | ok inner =>
      rw [List.filter_cons_of_pos rfl, gather, gather]
      exact ih rfl
    | error e =>
      have herror : ¬ Except.isOk (.error e : Except Status SearchResponse) := Bool.false_ne_true
      rw [List.filter_cons_of_neg herror, gather]
      exact ih rfl

/-- A call that succeeds is made of what is gathered without the errors. -/
theorem scatterGather_congr {clients clients' : List SearchClient} {req : SearchRequest}
    (h : (gather G 0 .start (results clients req)).answered =
      (gather G 0 .start (results clients' req)).answered) {response response' : SearchResponse}
    (hok : scatterGather G H clients req = .ok response)
    (hok' : scatterGather G H clients' req = .ok response') : response = response' := by
  unfold scatterGather at hok hok'
  dsimp only at hok hok'
  generalize gather G 0 .start (results clients req) = g at h hok
  generalize gather G 0 .start (results clients' req) = g' at h hok'
  obtain ⟨hits, total, duration, failed, count, facets⟩ := g
  obtain ⟨hits', total', duration', failed', count', facets'⟩ := g'
  simp only [Gathered.answered, Gathered.mk.injEq] at h
  obtain ⟨rfl, rfl, rfl, -, rfl, rfl⟩ := h
  split_ifs at hok hok'
  all_goals
    cases hok
    cases hok'
    rfl

/-! ## The clients that answer -/

section
variable {clients : List SearchClient} {req : SearchRequest}

theorem results_filter : results (clients.filter (answersTo req)) req =
    (results clients req).filter Except.isOk := by
  unfold results
  rw [List.filter_map]
  rfl

theorem length_answers_results :
    (answers (results clients req)).length = (clients.filter (answersTo req)).length := by
  induction clients with
  | nil => rfl
  | cons client clients ih =>
    cases hc : client (nodeReq req) with
    | ok inner =>
      have hcons : answers (results (client :: clients) req) =
          inner :: answers (results clients req) := by
        rw [results, List.map_cons, hc]
        exact List.filterMap_cons_some rfl
      rw [hcons, List.filter_cons_of_pos (by rw [answersTo, hc]; rfl), List.length_cons,
        List.length_cons, ih]
    | error e =>
      have hcons : answers (results (client :: clients) req) = answers (results clients req) := by
        rw [results, List.map_cons, hc]
        exact List.filterMap_cons_none rfl
      rw [hcons, List.filter_cons_of_neg (by rw [answersTo, hc]; exact Bool.false_ne_true), ih]

theorem no_error_filter : ¬ ∃ e, .error e ∈ results (clients.filter (answersTo req)) req := by
  rintro ⟨e, he⟩
  rw [results_filter] at he
  exact Bool.false_ne_true (List.mem_filter.1 he).2

theorem scatterGather_cases :
    let failed := (results clients req).zipIdx.filterMap (failure G)
    let answering := clients.filter (answersTo req)
    if Consistency.ofI32 req.consistency = .all ∧ answering.length < clients.length then
      scatterGather G H clients req = .error
        ⟨s!"Consistency ALL failed: {answering.length}/{clients.length} nodes succeeded", failed⟩
    else if Consistency.ofI32 req.consistency ≠ .all ∧ answering = [] then
      scatterGather G H clients req = .error
        ⟨s!"Consistency ANY failed: all {clients.length} nodes failed.", failed⟩
    else ∃ response, scatterGather G H clients req = .ok response := by
  intro failed answering
  obtain ⟨-, -, hcount, -⟩ := gather_eq G (results clients req)
  have hfailed : (gather G 0 .start (results clients req)).failedNodes = failed :=
    failedNodes_gather ..
  have hlen : (gather G 0 .start (results clients req)).successfulNodes = answering.length :=
    hcount.trans length_answers_results
  have hnil : answering = [] ↔ answering.length = 0 := List.length_eq_zero_iff.symm
  unfold scatterGather
  dsimp only
  rw [hlen, hfailed]
  simp only [hnil]
  split_ifs
  · rfl
  · rfl
  · exact ⟨_, rfl⟩
  · exact ⟨_, rfl⟩

/-- **A call that succeeds is answered as if the nodes that answer were all there are.** -/
theorem scatterGather_answering {response : SearchResponse}
    (hok : scatterGather G H clients req = .ok response) :
    scatterGather G H (clients.filter (answersTo req)) req = .ok response := by
  cases hcall : scatterGather G H (clients.filter (answersTo req)) req with
  | ok response' =>
    refine congrArg _ (scatterGather_congr ?_ hok hcall).symm
    rw [results_filter]
    exact answered_gather _ rfl
  | error e =>
    -- they do not fail, so there are none, and then the call fails too
    have herror := scatterGather_error_iff.1 ⟨e, hcall⟩
    split_ifs at herror with hconsistency
    · exact absurd herror no_error_filter
    · have hzero := congrArg List.length herror
      rw [length_answers_results, List.filter_filter] at hzero
      simp only [Bool.and_self, List.length_nil, List.length_eq_zero_iff] at hzero
      have hcases := @scatterGather_cases G H clients req
      rw [if_neg (fun h => hconsistency h.1), if_pos ⟨hconsistency, hzero⟩, hok] at hcases
      cases hcases

end

/-- **What a caller gets while nodes fail.**  Under `ALL` one failure makes the call fail, and
    otherwise only the failure of all nodes.  A call that fails lists the nodes that did, in
    order and each by its number, and counts those that answered; any other call is answered
    as if the nodes that answered were the whole cluster. -/
theorem degraded_search (clients : List SearchClient) (req : SearchRequest) :
    let failed := (results clients req).zipIdx.filterMap (failure G)
    let answering := clients.filter (answersTo req)
    let reply := searchHandler G H clients req
    if Consistency.ofI32 req.consistency = .all ∧ answering.length < clients.length then
      reply = ⟨500, .error
        ⟨s!"Consistency ALL failed: {answering.length}/{clients.length} nodes succeeded", failed⟩⟩
    else if Consistency.ofI32 req.consistency ≠ .all ∧ answering = [] then
      reply = ⟨500, .error
        ⟨s!"Consistency ANY failed: all {clients.length} nodes failed.", failed⟩⟩
    else reply.statusCode = 200 ∧ reply = searchHandler G H answering req := by
  intro failed answering reply
  have hcases := @scatterGather_cases G H clients req
  split_ifs with hall hany
  · rw [if_pos hall] at hcases
    show searchHandler G H clients req = _
    rw [searchHandler, hcases]
  · rw [if_neg hall, if_pos hany] at hcases
    show searchHandler G H clients req = _
    rw [searchHandler, hcases]
  · rw [if_neg hall, if_neg hany] at hcases
    obtain ⟨response, hok⟩ := hcases
    have hreply : reply = ⟨200, .ok response⟩ := by
      show searchHandler G H clients req = _
      rw [searchHandler, hok]
    refine ⟨congrArg SearchReply.statusCode hreply, ?_⟩
    rw [hreply, searchHandler, scatterGather_answering hok]

end Gateway

end Tantylla
