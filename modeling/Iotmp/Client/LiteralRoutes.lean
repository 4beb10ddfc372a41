/-
Literal resources beside patterns (`client.hpp`: `get_resource`, `operator[]`, the API listing).

`get_resource` returns the first pattern in the byte order of the keys that matches. `*` sorts before digits and
letters, `:` between digits and letters, so a pattern may come before a literal path that it matches too. The literal
resource is listed all the same.

- `listed_of_registered`: the listing announces every registered path.
- `getResource_literal_iff`: when the search ends with a literal path, in terms of the patterns before it.
- `literal_dispatched_iff`: a request for a literal path is dispatched to it exactly if no pattern before it denotes
  the path, and none makes the dispatch fail in an assignment to a field 0 that takes none.
Witness: `literal_dispatched_led`. Counterexample: `literal_shadowed`.
-/
import Mathlib.Tactic
import Iotmp.Client.Answers
import Iotmp.Client.PathPatterns

namespace Iotmp

open PathTemplate

/-- a path without wildcards -/
def Literal (path : Bytes) : Prop := (0x3A : UInt8) ∉ path ∧ (0x2A : UInt8) ∉ path

instance instDecidableLiteral (path : Bytes) : Decidable (Literal path) := inferInstanceAs (Decidable (_ ∧ _))

theorem Literal.denotes {path : Bytes} (h : Literal path) : Denotes path [] path := by
  rw [Denotes, tokens_literal h.1 h.2]
  refine ⟨fun key hkey => ?_, expands_letters slash path⟩
  obtain ⟨c, -, hc⟩ := List.mem_map.1 hkey
  exact absurd hc (by simp)

theorem Literal.captures {path : Bytes} (h : Literal path) (reqPath : Bytes) : captures path reqPath = [] := by
  by_contra hne
  obtain ⟨letters, token, template, htokens, ⟨key, htoken⟩, -⟩ := (captures_ne_nil_iff path reqPath).1 hne
  have hmem : token ∈ path.map (Token.letter : UInt8 → PathToken) := by
    rw [← tokens_literal h.1 h.2, htokens]
    exact List.mem_append_right _ List.mem_cons_self
  obtain ⟨c, -, rfl⟩ := List.mem_map.1 hmem
  rcases htoken with heq | ⟨heq, -⟩
  · exact absurd heq (by simp)
  · exact absurd heq (by simp)

namespace Client

/-! ## The listing -/

/-- the API listing has the path -/
def Listed (c : Client) (path : Bytes) : Prop :=
  ∃ ms, (c.describeApi (.withStreamId 0 .ok)).get Field.PAYLOAD = .object ms ∧ (SortedMap.find path ms).isSome

/-- **Every registered path is listed.** -/
theorem listed_of_registered {c : Client} {path : Bytes} (h : (c.resources.get path).isSome) : c.Listed path := by
  obtain ⟨r, hr⟩ := Option.isSome_iff_exists.1 h
  have hfold := foldl_insert_fillApi c.resources.entries c.resources.ordered
  have hfind : SortedMap.find path (c.resources.entries.map fun e => (e.1, e.2.fillApi)) = some r.fillApi := by
    rw [SortedMap.find_map]
    exact congrArg _ hr
  rw [Listed, describeApi]
  split
  · next hnil => exact absurd hr (by rw [SortedMap.get, hnil]; simp [SortedMap.find])
  · refine ⟨_, by rw [IotmpMessage.get_setField, if_pos rfl], ?_⟩
    rw [hfold, hfind]
    rfl

end Client

/-! ## The search -/

/-- assignments are all made exactly if there are none, or the value is an object or null -/
theorem assignAll_returns_iff (assignments : List (Bytes × Bytes)) (pathMatches : Json) :
    (∃ v, assignAll assignments pathMatches = .returns v) ↔ (members pathMatches).isSome ∨ assignments = [] := by
  refine ⟨fun ⟨v, hv⟩ => ?_, fun h => ?_⟩
  · rcases assignments with _ | ⟨e, assignments⟩
    · exact Or.inr rfl
    · rw [assignAll] at hv
      rcases ha : assignMatch pathMatches e.1 e.2 with w | _ <;> rw [ha] at hv
      · obtain ⟨ms, hms, -⟩ := members_assignMatch ha
        exact Or.inl (by rw [hms]; rfl)
      · exact absurd hv (by simp)
  · rcases h with hsome | rfl
    · obtain ⟨ms, hms⟩ := Option.isSome_iff_exists.1 hsome
      obtain ⟨v, hv, -⟩ := assignAll_members hms assignments
      exact ⟨v, hv⟩
    · exact ⟨pathMatches, rfl⟩

/-- what the search does with patterns that do not match -/
theorem getResource_append {before rest : List (Bytes × Resource)} {path : Bytes}
    (hbefore : ∀ e ∈ before, matched e.1 path = false) (pathMatches : Json) :
    getResource (before ++ rest) path pathMatches =
      match assignAll (before.flatMap fun e => captures e.1 path) pathMatches with
      | .throws => .throws
      | .returns pathMatches => getResource rest path pathMatches := by
  induction before generalizing pathMatches with
  | nil => rfl
  | cons e before ih =>
    have he : matched e.1 path = false := hbefore e List.mem_cons_self
    rw [List.cons_append, getResource, matchesPath_eq, List.flatMap_cons, assignAll_append]
    rcases assignAll (captures e.1 path) pathMatches with v | _
    · simp only [he]
      exact ih (fun e' h' => hbefore e' (List.mem_cons_of_mem _ h')) v
    · rfl

/-- the entries before a registered path are those with a smaller key -/
theorem entries_split {m : SortedMap Bytes Resource} {path : Bytes} {r : Resource} (hr : m.get path = some r) :
    ∃ before after, m.entries = before ++ (path, r) :: after ∧
      ∀ e, e ∈ before ↔ m.get e.1 = some e.2 ∧ e.1 < path := by
  obtain ⟨before, after, hentries⟩ := List.append_of_mem ((SortedMap.get_eq_some_iff m path r).1 hr)
  have hordered := m.ordered
  rw [SortedMap.Ordered, hentries, List.pairwise_append, List.pairwise_cons] at hordered
  obtain ⟨-, ⟨hafter, -⟩, hbefore⟩ := hordered
  refine ⟨before, after, hentries, fun e => ?_⟩
  rw [SortedMap.get_eq_some_iff, hentries, List.mem_append, List.mem_cons]
  refine ⟨fun he => ⟨Or.inl he, hbefore e he (path, r) List.mem_cons_self⟩, fun hfound => ?_⟩
  obtain ⟨he, hlt⟩ := hfound
  rcases he with he | heq | he
  · exact he
  · exact absurd ((congrArg Prod.fst heq) ▸ hlt) (lt_irrefl _)
  · exact absurd (hafter e he) (not_lt_of_gt hlt)

/-- **The search ends with a literal path** exactly if it passes all patterns before it. -/
theorem getResource_literal_iff {m : SortedMap Bytes Resource} {path : Bytes} (hregistered : (m.get path).isSome)
    (hliteral : Literal path) (pathMatches : Json) :
    (∃ v, getResource m.entries path pathMatches = .returns (some path, v)) ↔
      ∀ pattern, (m.get pattern).isSome → pattern < path →
        matched pattern path = false ∧ ((members pathMatches).isSome ∨ captures pattern path = []) := by
  obtain ⟨r, hr⟩ := Option.isSome_iff_exists.1 hregistered
  obtain ⟨before, after, hentries, hmem⟩ := entries_split hr
  have hall : ∀ P : Bytes → Prop, (∀ pattern, (m.get pattern).isSome → pattern < path → P pattern) ↔
      ∀ e ∈ before, P e.1 := fun P =>
    ⟨fun h e he => h e.1 (by rw [((hmem e).1 he).1]; rfl) ((hmem e).1 he).2, fun h pattern hsome hlt => by
      obtain ⟨r', hr'⟩ := Option.isSome_iff_exists.1 hsome
      exact h (pattern, r') ((hmem (pattern, r')).2 ⟨hr', hlt⟩)⟩
  rw [hall fun pattern => matched pattern path = false ∧ ((members pathMatches).isSome ∨ captures pattern path = [])]
  have hself : matched path path = true := (matched_iff path path).2 ⟨[], hliteral.denotes⟩
  have hassigns := assignAll_returns_iff (before.flatMap fun e => captures e.1 path) pathMatches
  rw [List.flatMap_eq_nil_iff] at hassigns
  refine ⟨fun ⟨v, hv⟩ => ?_, fun h => ?_⟩
  · have hbefore : ∀ e ∈ before, matched e.1 path = false := by
      have hselected := (getResource_selects hv).1
      rw [selected, hentries, List.map_append, List.find?_append] at hselected
      rcases hfind : (before.map Prod.fst).find? fun resourcePath => matched resourcePath path with _ | other
      · intro e he
        simpa using List.find?_eq_none.1 hfind e.1 (List.mem_map_of_mem he)
      · obtain rfl : other = path := by simpa [hfind] using hselected
        obtain ⟨e, he, heq⟩ := List.mem_map.1 (List.mem_of_find?_eq_some hfind)
        exact absurd (heq ▸ ((hmem e).1 he).2) (lt_irrefl _)
    rw [hentries, getResource_append hbefore] at hv
    rcases ha : assignAll (before.flatMap fun e => captures e.1 path) pathMatches with w | _ <;> rw [ha] at hv
    · have hcaptures := hassigns.1 ⟨w, ha⟩
      exact fun e he => ⟨hbefore e he, hcaptures.imp_right fun hnil => hnil e he⟩
    · exact absurd hv (by simp)
  · have hcaptures : (members pathMatches).isSome ∨ ∀ e ∈ before, captures e.1 path = [] := by
      by_cases hsome : (members pathMatches).isSome
      · exact Or.inl hsome
      · exact Or.inr fun e he => (h e he).2.resolve_left hsome
    obtain ⟨v, hv⟩ := hassigns.2 hcaptures
    refine ⟨v, ?_⟩
    rw [hentries, getResource_append fun e he => (h e he).1, hv]
    simp only [getResource, matchesPath_eq, hliteral.captures, assignAll, hself]

namespace Client

/-- **A request for a literal path is dispatched to it** exactly if no pattern before it, in the byte order of the keys,
denotes the path, and none of them assigns to a field 0 that is neither null nor an object. -/
theorem literal_dispatched_iff (c : Client) (request : IotmpMessage) (path : Bytes)
    (hregistered : (c.resources.get path).isSome) (hliteral : Literal path)
    (hresource : request.fields.get Field.RESOURCE = some (.string path))
    (hstream : request.messageType = .streamData ∨ request.messageType = .stopStream →
      (c.streams.get request.getStreamId).bind StreamConfig.resource = none) :
    (∃ request', c.resolve request = .returns (some (.resource path), request')) ↔
      ∀ pattern, (c.resources.get pattern).isSome → pattern < path →
        (¬ ∃ values, Denotes pattern values path) ∧
        ((members (request.get 0)).isSome ∨ ¬ Reaches pattern path) := by
  have hnone : (if request.messageType = .streamData ∨ request.messageType = .stopStream then
      (c.streams.get request.getStreamId).bind StreamConfig.resource else none) = none := by
    split_ifs with htype
    · exact hstream htype
    · rfl
  have hsearch := getResource_literal_iff hregistered hliteral (request.get 0)
  simp only [← matched_iff, ← captures_ne_nil_iff, not_not, Bool.not_eq_true]
  rw [← hsearch, resolve, hnone, hresource]
  simp only
  rcases getResource c.resources.entries path (request.get 0) with ⟨found, v⟩ | _
  · simp
  · simp

/-! ## Two resources -/

theorem literal_dispatched_led :
    ∃ request', (withPatterns [":room/on", "led"]).resolve (runOn "led" .null) =
      .returns (some (.resource (text "led")), request') := by
  refine (literal_dispatched_iff (withPatterns [":room/on", "led"]) (runOn "led" .null) (text "led") (by decide)
    (by decide) rfl (by decide)).2 fun pattern hpattern hlt => ⟨?_, Or.inl (by decide)⟩
  obtain ⟨r, hr⟩ := Option.isSome_iff_exists.1 hpattern
  have hmem : (pattern, r) ∈ [(text ":room/on", reading), (text "led", reading)] :=
    (SortedMap.get_eq_some_iff _ pattern r).1 hr
  rcases List.mem_cons.1 hmem with heq | hmem
  · have hroom : pattern = text ":room/on" := congrArg Prod.fst heq
    rw [← matched_iff, hroom]
    decide
  · have hled : pattern = text "led" := congrArg Prod.fst (List.mem_singleton.1 hmem)
    exact absurd (hled ▸ hlt) (lt_irrefl _)

/-- **A pattern shadows a literal resource**: `:room` comes before `led`, which is registered and listed. -/
theorem literal_shadowed :
    Literal (text "led") ∧ ((withPatterns [":room", "led"]).resources.get (text "led")).isSome ∧
      (withPatterns [":room", "led"]).Listed (text "led") ∧
      ∃ request', (withPatterns [":room", "led"]).resolve (runOn "led" .null) =
        .returns (some (.resource (text ":room")), request') :=
  ⟨by decide, by decide, listed_of_registered (by decide), _, rfl⟩

end Client

end Iotmp
