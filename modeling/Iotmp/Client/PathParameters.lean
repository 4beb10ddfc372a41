/-
The path parameters of a request (`client.hpp`: `matches`, `get_resource`, `handle_resource_request`).

`matches` assigns a capture as soon as it has read it, to the object in field 0 of the request: the decoder may have
filled it, and patterns tried earlier have left their captures in it. A STOP_STREAM passes its PARAMETERS instead.

- `captures`: what a pattern assigns on a path, and whether it matches. `matchesPath_eq`: `matches` assigns this and no
  more.
- `getResource_selects`: `get_resource` assigns what the patterns tried assign, in their order.
- `path_exact_iff`: the handler is passed exactly the captures of the selected pattern if and only if field 0 held
  nothing, or an object, and no key of it, nor of a pattern tried before, but keys the selected pattern captures.
Witness: `session_path_exact`. Counterexamples: `captures_left_behind`, `peer_supplies_path`.
-/
import Mathlib.Tactic
import Iotmp.Client.Requests

namespace Iotmp

/-! ## What a pattern captures -/

/-- whether the rest of a pattern matches the rest of a path, and what it assigns on the way -/
def capturesLoop : ℕ → Bytes → Bytes → Bool × List (Bytes × Bytes)
  | 0, _, _ => (false, [])
  | _ + 1, [], reqPath => (reqPath.isEmpty, [])
  | fuel + 1, c :: resPath, reqPath =>
    let key := resPath.takeWhile (· ≠ slash)
    let resRest := resPath.dropWhile (· ≠ slash)
    if c = 0x2A then if key.isEmpty then (false, []) else (resRest.isEmpty, [(key, reqPath)])
    else if c = 0x3A then
      let rest := capturesLoop fuel resRest (reqPath.dropWhile (· ≠ slash))
      (rest.1, (key, reqPath.takeWhile (· ≠ slash)) :: rest.2)
    else
      match reqPath with
      | [] => (false, [])
      | d :: reqPath => if c ≠ d then (false, []) else capturesLoop fuel resPath reqPath

def matched (resPath reqPath : Bytes) : Bool := (capturesLoop (resPath.length + 1) resPath reqPath).1

/-- the captures of a pattern, in the order in which they are assigned -/
def captures (resPath reqPath : Bytes) : List (Bytes × Bytes) := (capturesLoop (resPath.length + 1) resPath reqPath).2

/-- assignments one after the other -/
def assignAll : List (Bytes × Bytes) → Json → Call Json
  | [], pathMatches => .returns pathMatches
  | (key, value) :: rest, pathMatches =>
    match assignMatch pathMatches key value with
    | .throws => .throws
    | .returns pathMatches => assignAll rest pathMatches

theorem assignAll_append (first second : List (Bytes × Bytes)) (pathMatches : Json) :
    assignAll (first ++ second) pathMatches =
      match assignAll first pathMatches with
      | .throws => .throws
      | .returns pathMatches => assignAll second pathMatches := by
  induction first generalizing pathMatches with
  | nil => rfl
  | cons e first ih =>
    rw [List.cons_append, assignAll, assignAll]
    rcases assignMatch pathMatches e.1 e.2 with pathMatches' | _
    · exact ih pathMatches'
    · rfl

theorem matchesLoop_eq (fuel : ℕ) (resPath reqPath : Bytes) (pathMatches : Json) :
    matchesLoop fuel resPath reqPath pathMatches =
      match assignAll (capturesLoop fuel resPath reqPath).2 pathMatches with
      | .throws => .throws
      | .returns pathMatches => .returns ((capturesLoop fuel resPath reqPath).1, pathMatches) := by
  induction fuel generalizing resPath reqPath pathMatches with
  | zero => rfl
  | succ fuel ih =>
    rcases resPath with _ | ⟨c, resPath⟩
    · rfl
    · simp only [matchesLoop, capturesLoop]
      split_ifs with hstar hkey hcolon
      · rfl
      · simp only [assignAll]
        rcases assignMatch pathMatches (resPath.takeWhile (· ≠ slash)) reqPath with v | _
        · rfl
        · rfl
      · simp only [assignAll]
        rcases assignMatch pathMatches (resPath.takeWhile (· ≠ slash)) (reqPath.takeWhile (· ≠ slash)) with v | _
        · exact ih _ _ v
        · rfl
      · rcases reqPath with _ | ⟨d, reqPath⟩
        · rfl
        · simp only
          split_ifs with hne
          · rfl
          · exact ih _ _ _

/-- **`matches` assigns the captures**, and no more, whether or not the pattern matches in the end. -/
theorem matchesPath_eq (resPath reqPath : Bytes) (pathMatches : Json) :
    matchesPath resPath reqPath pathMatches =
      match assignAll (captures resPath reqPath) pathMatches with
      | .throws => .throws
      | .returns pathMatches => .returns (matched resPath reqPath, pathMatches) :=
  matchesLoop_eq _ resPath reqPath pathMatches

/-! ## What get_resource assigns -/

/-- the patterns tried before one is selected -/
def tried (entries : List (Bytes × Resource)) (requestPath : Bytes) : List Bytes :=
  (entries.map Prod.fst).takeWhile fun resourcePath => !matched resourcePath requestPath

/-- the first pattern that matches -/
def selected (entries : List (Bytes × Resource)) (requestPath : Bytes) : Option Bytes :=
  (entries.map Prod.fst).find? fun resourcePath => matched resourcePath requestPath

/-- what was assigned when the search ends with a pattern -/
def assigned (entries : List (Bytes × Resource)) (requestPath resourcePath : Bytes) : List (Bytes × Bytes) :=
  ((tried entries requestPath).flatMap fun resourcePath => captures resourcePath requestPath) ++
    captures resourcePath requestPath

/-- **`get_resource` assigns the captures of every pattern it tries**, those that do not match included. -/
theorem getResource_selects {entries : List (Bytes × Resource)} {requestPath resourcePath : Bytes}
    {pathMatches pathMatches' : Json}
    (h : getResource entries requestPath pathMatches = .returns (some resourcePath, pathMatches')) :
    selected entries requestPath = some resourcePath ∧
      assignAll (assigned entries requestPath resourcePath) pathMatches = .returns pathMatches' := by
  induction entries generalizing pathMatches with
  | nil => exact absurd h (by simp [getResource])
  | cons e entries ih =>
    rw [getResource, matchesPath_eq] at h
    simp only [selected, assigned, tried, List.map_cons, List.find?_cons, List.takeWhile_cons]
    rcases ha : assignAll (captures e.1 requestPath) pathMatches with v | _ <;> rw [ha] at h
    · rcases hm : matched e.1 requestPath with _ | _ <;> rw [hm] at h
      · obtain ⟨hs, hall⟩ := ih h
        refine ⟨hs, ?_⟩
        simp only [Bool.not_false, if_true, List.flatMap_cons, List.append_assoc]
        rw [assignAll_append, ha]
        exact hall
      · obtain ⟨rfl, rfl⟩ : e.1 = resourcePath ∧ v = pathMatches' := by simpa using h
        exact ⟨rfl, by simpa using ha⟩
    · exact absurd h (by simp)

/-! ## Keys -/

/-- the members of an object; null has none -/
def members : Json → Option (List (Bytes × Json))
  | .null => some []
  | .object ms => some ms
  | _ => none

/-- the members after assignments -/
def store (ms : List (Bytes × Json)) (assignments : List (Bytes × Bytes)) : List (Bytes × Json) :=
  assignments.foldl (fun ms e => SortedMap.insert e.1 (.string e.2) ms) ms

theorem members_assignMatch {pathMatches : Json} {key value : Bytes} {v : Json}
    (h : assignMatch pathMatches key value = .returns v) :
    ∃ ms, members pathMatches = some ms ∧ members v = some (SortedMap.insert key (.string value) ms) := by
  cases pathMatches with
  | null =>
    obtain rfl := Call.returns.inj h
    exact ⟨[], rfl, rfl⟩
  | object ms =>
    obtain rfl := Call.returns.inj h
    exact ⟨ms, rfl, rfl⟩
  | _ => exact absurd h (by simp [assignMatch])

theorem members_assignAll {assignments : List (Bytes × Bytes)} {pathMatches v : Json}
    (h : assignAll assignments pathMatches = .returns v) :
    members v = (members pathMatches).map fun ms => store ms assignments := by
  induction assignments generalizing pathMatches with
  | nil =>
    obtain rfl := Call.returns.inj h
    rcases members pathMatches with _ | ms
    · rfl
    · rfl
  | cons e assignments ih =>
    rw [assignAll] at h
    rcases ha : assignMatch pathMatches e.1 e.2 with w | _ <;> rw [ha] at h
    · obtain ⟨ms, hms, hw⟩ := members_assignMatch ha
      rw [ih h, hw, hms]
      rfl
    · exact absurd h (by simp)

/-- a key that is assigned has its last value, another one what it had -/
theorem find_store (key : Bytes) (assignments : List (Bytes × Bytes)) (ms : List (Bytes × Json)) :
    SortedMap.find key (store ms assignments) =
      if key ∈ assignments.map Prod.fst then SortedMap.find key (store [] assignments) else SortedMap.find key ms := by
  induction assignments using List.reverseRecOn with
  | nil => rfl
  | append_singleton assignments e ih =>
    have hstore : ∀ ms, store ms (assignments ++ [e]) =
        SortedMap.insert e.1 (.string e.2) (store ms assignments) := fun ms => by simp [store]
    rw [hstore, hstore, SortedMap.find_insert, SortedMap.find_insert, ih]
    by_cases hkey : key = e.1
    · simp [hkey]
    · have hmem : key ∈ (assignments ++ [e]).map Prod.fst ↔ key ∈ assignments.map Prod.fst := by simp [hkey]
      simp only [if_neg hkey, hmem]

theorem find_store_eq_none (key : Bytes) (assignments : List (Bytes × Bytes)) (ms : List (Bytes × Json)) :
    SortedMap.find key (store ms assignments) = none ↔
      key ∉ assignments.map Prod.fst ∧ SortedMap.find key ms = none := by
  induction assignments using List.reverseRecOn with
  | nil => simp [store]
  | append_singleton assignments e ih =>
    have hstore : store ms (assignments ++ [e]) = SortedMap.insert e.1 (.string e.2) (store ms assignments) := by
      simp [store]
    rw [hstore, SortedMap.find_insert]
    by_cases hkey : key = e.1
    · simp [hkey]
    · rw [if_neg hkey, ih]
      simp [hkey]

/-- **The object holds the captures and nothing else**; null holds nothing. -/
def Exactly (v : Json) (assignments : List (Bytes × Bytes)) : Prop :=
  ∃ ms, members v = some ms ∧ ∀ key, SortedMap.find key ms = SortedMap.find key (store [] assignments)

/-- captures stored on top of members and of earlier captures -/
theorem store_exact_iff (ms : List (Bytes × Json)) (before after : List (Bytes × Bytes)) :
    (∀ key, SortedMap.find key (store ms (before ++ after)) = SortedMap.find key (store [] after)) ↔
      ∀ key, SortedMap.find key ms ≠ none ∨ key ∈ before.map Prod.fst → key ∈ after.map Prod.fst := by
  have happend : store ms (before ++ after) = store (store ms before) after := List.foldl_append
  refine forall_congr' fun key => ?_
  rw [happend, find_store key after (store ms before)]
  by_cases hkey : key ∈ after.map Prod.fst
  · simp only [hkey, if_true, implies_true]
  · have hnone : SortedMap.find key (store [] after) = none := (find_store_eq_none key after []).2 ⟨hkey, rfl⟩
    rw [if_neg hkey, hnone, find_store_eq_none]
    simp only [hkey, imp_false, not_or, not_not, and_comm]

/-! ## What the handler is passed -/

/-- the path parameters that the handler of a resource is passed, if it takes any: `input::path`, or the first
argument of the stream handler -/
def Resource.pathParameters (r : Resource) (request : IotmpMessage) : Option Json :=
  match request.messageType with
  | .run | .streamData =>
    match r.callback with
    | .input _ => (Resource.inputOf request).path
    | .inputOutput _ => (Resource.inputOf request).path
    | _ => none
  | .startStream => if r.streamHandler.isSome then some (request.get 0) else none
  | .stopStream => if r.streamHandler.isSome then some (request.get Field.PARAMETERS) else none
  | _ => none

/-- `get_resource` selects a pattern for a request on a path: no stream gives the resource -/
structure Client.Selects (c : Client) (request : IotmpMessage) (path pattern : Bytes) (request' : IotmpMessage) :
    Prop where
  noStream : request.messageType = .streamData ∨ request.messageType = .stopStream →
    (c.streams.get request.getStreamId).bind StreamConfig.resource = none
  resource : request.fields.get Field.RESOURCE = some (.string path)
  resolved : c.resolve request = .returns (some (.resource pattern), request')

theorem Client.Selects.getResource {c : Client} {request request' : IotmpMessage} {path pattern : Bytes}
    (h : c.Selects request path pattern request') :
    ∃ pathMatches, Iotmp.getResource c.resources.entries path (request.get 0) = .returns (some pattern, pathMatches) ∧
      request' = request.setField 0 pathMatches := by
  have hresolved := h.resolved
  have hnone : (if request.messageType = .streamData ∨ request.messageType = .stopStream then
      (c.streams.get request.getStreamId).bind StreamConfig.resource else none) = none := by
    split_ifs with htype
    · exact h.noStream htype
    · rfl
  rw [Client.resolve, hnone, h.resource] at hresolved
  simp only at hresolved
  rcases hg : Iotmp.getResource c.resources.entries path (request.get 0) with ⟨found, pathMatches⟩ | _
  · rw [hg] at hresolved
    obtain ⟨hfound, rfl⟩ : found.map ResourceRef.resource = some (.resource pattern) ∧
        request.setField 0 pathMatches = request' := by simpa using hresolved
    obtain ⟨pattern', rfl, hpattern⟩ := Option.map_eq_some_iff.1 hfound
    obtain rfl : pattern' = pattern := by simpa using hpattern
    exact ⟨pathMatches, rfl, rfl⟩
  · rw [hg] at hresolved
    exact absurd hresolved (by simp)

/-- **The condition**: field 0 held nothing or an object, and neither it nor a pattern tried before the selected one has
a key that the selected one does not capture. A STOP_STREAM must have the captures in its PARAMETERS. -/
def Client.PathClean (c : Client) (request : IotmpMessage) (path pattern : Bytes) : Prop :=
  if request.messageType = .stopStream then Exactly (request.get Field.PARAMETERS) (captures pattern path)
  else
    ∃ ms, members (request.get 0) = some ms ∧
      ∀ key, (SortedMap.find key ms ≠ none ∨
          ∃ other ∈ tried c.resources.entries path, key ∈ (captures other path).map Prod.fst) →
        key ∈ (captures pattern path).map Prod.fst

/-- what is in field 0 after the dispatch -/
theorem Client.Selects.exact_iff {c : Client} {request request' : IotmpMessage} {path pattern : Bytes}
    (h : c.Selects request path pattern request') (htype : request.messageType ≠ .stopStream) :
    Exactly (request'.get 0) (captures pattern path) ↔ c.PathClean request path pattern := by
  obtain ⟨pathMatches, hget, rfl⟩ := h.getResource
  have hmembers := members_assignAll (getResource_selects hget).2
  rw [Client.PathClean, if_neg htype, IotmpMessage.get_setField, if_pos rfl, Exactly, hmembers]
  rcases members (request.get 0) with _ | ms
  · simp
  · have hexact := store_exact_iff ms
      ((tried c.resources.entries path).flatMap fun other => captures other path) (captures pattern path)
    simp only [Option.map_some, Option.some_inj, exists_eq_left', assigned, hexact, List.mem_map, List.mem_flatMap]
    refine forall_congr' fun key => imp_congr (or_congr Iff.rfl ?_) Iff.rfl
    exact ⟨fun ⟨e, ⟨other, hother, he⟩, hkey⟩ => ⟨other, hother, e, he, hkey⟩,
      fun ⟨other, hother, e, he, hkey⟩ => ⟨e, ⟨other, hother, he⟩, hkey⟩⟩

theorem pathParameters_cases (r : Resource) (request : IotmpMessage) {v : Json}
    (h : r.pathParameters request = some v) :
    v = if request.messageType = .stopStream then request.get Field.PARAMETERS else request.get 0 := by
  have hpath : (Resource.inputOf request).path = some v → v = request.get 0 := by
    intro hv
    rw [IotmpMessage.get]
    change request.fields.get 0 = some v at hv
    rw [hv]
    rfl
  rw [Resource.pathParameters] at h
  split at h
  · rename_i htype
    rw [htype, if_neg (by decide)]
    split at h
    · exact hpath h
    · exact hpath h
    · exact absurd h (by simp)
  · rename_i htype
    rw [htype, if_neg (by decide)]
    split at h
    · exact hpath h
    · exact hpath h
    · exact absurd h (by simp)
  · rename_i htype
    rw [htype, if_neg (by decide)]
    split_ifs at h
    exact (Option.some.inj h).symm
  · rename_i htype
    rw [htype, if_pos rfl]
    split_ifs at h
    exact (Option.some.inj h).symm
  · exact absurd h (by simp)

/-- **Path parameters come only from the selected pattern** exactly if, where the handler takes any, the condition
holds. -/
theorem path_exact_iff (c : Client) (request request' : IotmpMessage) (path pattern : Bytes) (r : Resource)
    (h : c.Selects request path pattern request') :
    (∀ v, r.pathParameters request' = some v → Exactly v (captures pattern path)) ↔
      (r.pathParameters request' ≠ none → c.PathClean request path pattern) := by
  have htype : request'.messageType = request.messageType := (Client.resolve_kept h.resolved).1
  have hclean : (Exactly (if request'.messageType = .stopStream then request'.get Field.PARAMETERS
      else request'.get 0) (captures pattern path)) ↔ c.PathClean request path pattern := by
    rw [htype]
    split_ifs with hstop
    · obtain ⟨pathMatches, -, rfl⟩ := h.getResource
      rw [Client.PathClean, if_pos hstop, IotmpMessage.get_setField, if_neg (by decide)]
    · exact h.exact_iff hstop
  refine ⟨fun hexact hsome => ?_, fun hexact v hv => ?_⟩
  · obtain ⟨v, hv⟩ := Option.ne_none_iff_exists'.1 hsome
    rw [← hclean, ← pathParameters_cases r request' hv]
    exact hexact v hv
  · rw [pathParameters_cases r request' hv, hclean]
    exact hexact (by rw [hv]; simp)

/-! ## Three clients -/

/-- a callback that reads its path -/
def reading : Resource where
  callback := .input fun input => .returns input.data

/-- a client with a resource under each pattern -/
def withPatterns (patterns : List String) : Client where
  resources := patterns.foldl (fun resources pattern => resources.set (text pattern) reading) SortedMap.empty

/-- a RUN request on a path, with field 0 as the peer filled it -/
def runOn (path : String) (peer : Json) : IotmpMessage :=
  ((IotmpMessage.withStreamId 7 .run).setField Field.RESOURCE (.string (text path))).setField 0 peer

theorem session_path_exact :
    ∃ v, reading.pathParameters (runOn "s/7" (.object [(text "id", .string (text "7"))])) = some v ∧
      Exactly v (captures (text "s/:id") (text "s/7")) := by
  refine ⟨_, rfl, (path_exact_iff (withPatterns ["s/:id"]) (runOn "s/7" .null) _ (text "s/7") (text "s/:id") reading
    ⟨by decide, rfl, rfl⟩).2 (fun _ => ⟨[], rfl, fun key hkey => ?_⟩) _ rfl⟩
  rcases hkey with hkey | ⟨other, hother, -⟩
  · exact absurd rfl hkey
  · have htried : tried (withPatterns ["s/:id"]).resources.entries (text "s/7") = [] := by decide
    rw [htried] at hother
    exact absurd hother (by simp)

/-- an object with a key is not what a pattern without captures gives -/
theorem not_exactly_nil (key : Bytes) (value : Json) : ¬ Exactly (.object [(key, value)]) [] := by
  rintro ⟨ms, hms, hfind⟩
  obtain rfl := Option.some.inj hms
  have hkey := hfind key
  simp [SortedMap.find, store] at hkey

/-- **A pattern that does not match leaves its capture behind**: `:device/on`, tried before `lamp/off`. -/
theorem captures_left_behind :
    ∃ request', (withPatterns [":device/on", "lamp/off"]).Selects (runOn "lamp/off" .null) (text "lamp/off")
        (text "lamp/off") request' ∧
      ∃ v, reading.pathParameters request' = some v ∧ ¬ Exactly v (captures (text "lamp/off") (text "lamp/off")) := by
  refine ⟨runOn "lamp/off" (.object [(text "device", .string (text "lamp"))]), ⟨by decide, rfl, rfl⟩, _, rfl, ?_⟩
  exact not_exactly_nil _ _

/-- **The peer supplies a path parameter** in field 0. -/
theorem peer_supplies_path :
    ∃ request', (withPatterns ["lamp/off"]).Selects (runOn "lamp/off" (.object [(text "session", .string (text "x"))]))
        (text "lamp/off") (text "lamp/off") request' ∧
      ∃ v, reading.pathParameters request' = some v ∧ ¬ Exactly v (captures (text "lamp/off") (text "lamp/off")) := by
  refine ⟨runOn "lamp/off" (.object [(text "session", .string (text "x"))]), ⟨by decide, rfl, rfl⟩, _, rfl, ?_⟩
  exact not_exactly_nil _ _

end Iotmp
