/-
The meaning of resource patterns (`client.hpp`: `matches`; `:key` and `*key` in the resource table of the README).

- `tokens`: a pattern as letters, `:key` segments and `*key` rests. `Denotes`: what a pattern with values stands for.
- `scan`: `matches` with its two indices, as the source has it. Every access is checked: `none` if one is outside.
- `scan_eq`: no access is outside, and the scan is the loop on what is left of the two strings.
- `matched_iff`, `Denotes.captures`: it matches exactly if the pattern denotes the path, and then it captures the
  values.
- `scanPath_denotes`: the two together, for an object without members.
Witness: `gpio_denotes`.
-/
import Mathlib.Tactic
import Iotmp.Lib.PathTemplate
import Iotmp.Client.PathParameters

namespace Iotmp

open PathTemplate

/-! ## Patterns -/

abbrev PathToken := Token UInt8 Bytes

def tokens : Bytes → List PathToken
  | [] => []
  | c :: resPath =>
    if c = 0x2A then .rest (resPath.takeWhile (· ≠ slash)) :: tokens (resPath.dropWhile (· ≠ slash))
    else if c = 0x3A then .segment (resPath.takeWhile (· ≠ slash)) :: tokens (resPath.dropWhile (· ≠ slash))
    else .letter c :: tokens resPath
termination_by resPath => resPath.length
decreasing_by
  all_goals simp only [List.length_cons]
  · exact Nat.lt_succ_of_le (List.length_dropWhile_le _ _)
  · exact Nat.lt_succ_of_le (List.length_dropWhile_le _ _)
  · exact Nat.lt_succ_self _

/-- every `*` has a key -/
def KeyedRests (template : List PathToken) : Prop := ∀ key, Token.rest key ∈ template → key ≠ []

/-- **What a pattern stands for**: the paths it spells with values for its wildcards, if every `*` has a key. -/
def Denotes (resPath : Bytes) (values : List Bytes) (reqPath : Bytes) : Prop :=
  KeyedRests (tokens resPath) ∧ Expands slash (tokens resPath) values reqPath

/-- the keys of a pattern with the values of its wildcards, in order -/
def bindings (resPath : Bytes) (values : List Bytes) : List (Bytes × Bytes) := (keys (tokens resPath)).zip values

theorem keyedRests_cons (token : PathToken) (template : List PathToken) :
    KeyedRests (token :: template) ↔ (∀ key, token = .rest key → key ≠ []) ∧ KeyedRests template := by
  simp only [KeyedRests, List.mem_cons]
  exact ⟨fun h => ⟨fun key hkey => h key (Or.inl hkey.symm), fun key hkey => h key (Or.inr hkey)⟩,
    fun h key hkey => hkey.elim (fun heq => h.1 key heq.symm) (h.2 key)⟩

/-- the first token of what follows a key -/
theorem head_tokens_dropWhile (resPath : Bytes) :
    tokens (resPath.dropWhile (· ≠ slash)) = [] ∨
      (tokens (resPath.dropWhile (· ≠ slash))).head? = some (.letter slash) := by
  rcases hrest : resPath.dropWhile (· ≠ slash) with _ | ⟨c, rest⟩
  · exact Or.inl (by rw [tokens])
  · have hc : c = slash := by
      have hhead := List.head?_dropWhile_not (· ≠ slash) resPath
      rw [hrest] at hhead
      simpa using hhead
    rw [hc, tokens, if_neg (by decide), if_neg (by decide)]
    exact Or.inr rfl

theorem separated_tokens (resPath : Bytes) : Separated slash (tokens resPath) := by
  induction resPath using tokens.induct with
  | case1 => rw [tokens]; exact trivial
  | case2 resPath ih =>
    rw [tokens, if_pos rfl]
    exact ih
  | case3 resPath hstar ih =>
    rw [tokens, if_neg hstar, if_pos rfl]
    exact ⟨head_tokens_dropWhile resPath, ih⟩
  | case4 c resPath hstar hcolon ih =>
    rw [tokens, if_neg hstar, if_neg hcolon]
    exact ih

theorem tokens_eq_nil {resPath : Bytes} : tokens resPath = [] ↔ resPath = [] := by
  rcases resPath with _ | ⟨c, resPath⟩
  · simp [tokens]
  · rw [tokens]
    split_ifs
    · simp
    · simp
    · simp

/-- a path without wildcards is a pattern that denotes itself -/
theorem tokens_literal {path : Bytes} (hcolon : (0x3A : UInt8) ∉ path) (hstar : (0x2A : UInt8) ∉ path) :
    tokens path = path.map Token.letter := by
  induction path with
  | nil => rw [tokens]; rfl
  | cons c path ih =>
    rw [List.mem_cons, not_or] at hcolon hstar
    rw [tokens, if_neg (Ne.symm hstar.1), if_neg (Ne.symm hcolon.1), ih hcolon.2 hstar.2]
    rfl

/-! ## The loop of matches decides it -/

theorem bindings_cons {c : UInt8} {resPath rest : Bytes} {token : PathToken}
    (h : tokens (c :: resPath) = token :: tokens rest) (values : List Bytes) :
    bindings (c :: resPath) values = (token.key.toList ++ keys (tokens rest)).zip values := by
  rw [bindings, h, keys, List.filterMap_cons]
  rcases token.key with _ | key
  · rfl
  · rfl

/-- where the loop succeeds, the tokens do, with the values that were captured -/
theorem of_capturesLoop (fuel : ℕ) (resPath reqPath : Bytes) (h : (capturesLoop fuel resPath reqPath).1 = true) :
    KeyedRests (tokens resPath) ∧ ∃ values, greedy slash (tokens resPath) reqPath = some values ∧
      (capturesLoop fuel resPath reqPath).2 = bindings resPath values := by
  induction fuel generalizing resPath reqPath with
  | zero => exact absurd h (by simp [capturesLoop])
  | succ fuel ih =>
    rcases resPath with _ | ⟨c, resPath⟩
    · rw [capturesLoop] at h
      rw [tokens, greedy, if_pos h]
      exact ⟨by simp [KeyedRests], [], rfl, by simp [bindings, tokens, keys, capturesLoop]⟩
    · simp only [capturesLoop] at h ⊢
      split_ifs at h with hstar hkey hcolon
      · have htokens : tokens (c :: resPath) =
            .rest (resPath.takeWhile (· ≠ slash)) :: tokens (resPath.dropWhile (· ≠ slash)) := by
          rw [tokens, if_pos hstar]
        have hnil : tokens (resPath.dropWhile (· ≠ slash)) = [] := tokens_eq_nil.2 (List.isEmpty_iff.1 h)
        simp only [if_pos hstar, if_neg hkey, bindings, htokens, hnil, keyedRests_cons]
        refine ⟨⟨fun key hk => ?_, by simp [KeyedRests]⟩, [reqPath], rfl, rfl⟩
        obtain rfl := Token.rest.inj hk
        exact fun heq => hkey (List.isEmpty_iff.2 heq)
      · have htokens : tokens (c :: resPath) =
            .segment (resPath.takeWhile (· ≠ slash)) :: tokens (resPath.dropWhile (· ≠ slash)) := by
          rw [tokens, if_neg hstar, if_pos hcolon]
        obtain ⟨hkeyed, values, hvalues, hcaptures⟩ := ih _ _ h
        rw [if_neg hstar, if_pos hcolon, htokens, keyedRests_cons, greedy, hvalues]
        refine ⟨⟨by simp, hkeyed⟩, _, rfl, ?_⟩
        rw [bindings_cons htokens, hcaptures]
        rfl
      · have htokens : tokens (c :: resPath) = .letter c :: tokens resPath := by
          rw [tokens, if_neg hstar, if_neg hcolon]
        rcases reqPath with _ | ⟨d, reqPath⟩
        · exact absurd h (by simp)
        · simp only at h
          split_ifs at h with hne
          obtain ⟨hkeyed, values, hvalues, hcaptures⟩ := ih _ _ h
          rw [if_neg hstar, if_neg hcolon, htokens, keyedRests_cons, greedy, if_pos (not_not.1 hne), hvalues]
          refine ⟨⟨by simp, hkeyed⟩, _, rfl, ?_⟩
          simp only [bindings_cons htokens, if_neg hne, hcaptures]
          rfl

/-- where the tokens succeed, the loop does -/
theorem capturesLoop_of_greedy {fuel : ℕ} {resPath reqPath : Bytes} {values : List Bytes}
    (hfuel : resPath.length < fuel) (hkeyed : KeyedRests (tokens resPath))
    (h : greedy slash (tokens resPath) reqPath = some values) : (capturesLoop fuel resPath reqPath).1 = true := by
  induction fuel generalizing resPath reqPath values with
  | zero => exact absurd hfuel (by simp)
  | succ fuel ih =>
    rcases resPath with _ | ⟨c, resPath⟩
    · rw [tokens, greedy] at h
      split_ifs at h with hpath
      exact hpath
    · have hlength : resPath.length < fuel := by simpa using hfuel
      have hrest : (resPath.dropWhile (· ≠ slash)).length < fuel := (List.length_dropWhile_le _ _).trans_lt hlength
      rw [tokens] at h hkeyed
      simp only [capturesLoop]
      split_ifs at h hkeyed ⊢ with hstar hkey hcolon
      · exact absurd (List.isEmpty_iff.1 hkey) (((keyedRests_cons _ _).1 hkeyed).1 _ rfl)
      · rw [greedy] at h
        split_ifs at h with htokens
        exact List.isEmpty_iff.2 (tokens_eq_nil.1 (List.isEmpty_iff.1 htokens))
      · obtain ⟨values, hvalues, -⟩ := Option.map_eq_some_iff.1 h
        exact ih hrest ((keyedRests_cons _ _).1 hkeyed).2 hvalues
      · rcases reqPath with _ | ⟨d, reqPath⟩
        · exact absurd h (by simp [greedy])
        · rw [greedy] at h
          split_ifs at h with hcd
          simp only
          rw [if_neg (not_not.2 hcd)]
          exact ih hlength ((keyedRests_cons _ _).1 hkeyed).2 h

/-- **A pattern matches exactly if it denotes the path.** -/
theorem matched_iff (resPath reqPath : Bytes) :
    matched resPath reqPath = true ↔ ∃ values, Denotes resPath values reqPath := by
  refine ⟨fun h => ?_, fun ⟨values, hkeyed, hexpands⟩ => ?_⟩
  · obtain ⟨hkeyed, values, hvalues, -⟩ := of_capturesLoop _ resPath reqPath h
    exact ⟨values, hkeyed, expands_of_greedy hvalues⟩
  · exact capturesLoop_of_greedy (Nat.lt_succ_self _) hkeyed (greedy_of_expands (separated_tokens resPath) hexpands)

theorem Denotes.unique {resPath reqPath : Bytes} {values values' : List Bytes} (h : Denotes resPath values reqPath)
    (h' : Denotes resPath values' reqPath) : values = values' :=
  h.2.unique (separated_tokens resPath) h'.2

/-- **It captures the values.** -/
theorem Denotes.captures {resPath reqPath : Bytes} {values : List Bytes} (h : Denotes resPath values reqPath) :
    captures resPath reqPath = bindings resPath values := by
  obtain ⟨-, values', hvalues, hcaptures⟩ := of_capturesLoop _ resPath reqPath ((matched_iff _ _).2 ⟨values, h⟩)
  rw [Iotmp.captures, hcaptures, h.2.unique (separated_tokens resPath) (expands_of_greedy hvalues)]

/-- what an object holds after assignments: the last value of a key -/
theorem find_store_nil (key : Bytes) (assignments : List (Bytes × Bytes)) :
    SortedMap.find key (store [] assignments) = (assignments.reverse.lookup key).map Json.string := by
  induction assignments using List.reverseRecOn with
  | nil => rfl
  | append_singleton assignments e ih =>
    have hstore : store [] (assignments ++ [e]) = SortedMap.insert e.1 (.string e.2) (store [] assignments) := by
      simp [store]
    rw [hstore, SortedMap.find_insert, List.reverse_append, List.reverse_singleton, List.singleton_append,
      List.lookup_cons, ih]
    by_cases hkey : key = e.1
    · rw [if_pos hkey, beq_iff_eq.2 hkey]
      rfl
    · rw [if_neg hkey, beq_eq_false_iff_ne.2 hkey]

/-! ## The scan with its two indices -/

/-- `path.substr(pos, count)`: it throws where the position is outside -/
def substr (path : Bytes) (pos count : ℕ) : Option Bytes :=
  if pos ≤ path.length then some ((path.drop pos).take count) else none

/-- `while(idx < path.size() && path[idx] != '/') ++idx` -/
def toSlash (path : Bytes) : ℕ → ℕ → Option ℕ
  | 0, idx => some idx
  | fuel + 1, idx =>
    if idx < path.length then
      path[idx]?.bind fun c => if c ≠ slash then toSlash path fuel (idx + 1) else some idx
    else some idx

/-- `matches` from two indices on; `none` if it accesses a string outside -/
def scan (resPath reqPath : Bytes) : ℕ → ℕ → ℕ → Json → Option (Call (Bool × Json))
  | 0, _, _, pathMatches => some (.returns (false, pathMatches))
  | fuel + 1, resIdx, reqIdx, pathMatches =>
    if resIdx < resPath.length then
      resPath[resIdx]?.bind fun c =>
        if c = 0x2A then
          let keyStart := resIdx + 1
          (toSlash resPath resPath.length keyStart).bind fun resIdx =>
            if keyStart = resIdx then some (.returns (false, pathMatches))
            else
              (substr resPath keyStart (resIdx - keyStart)).bind fun key =>
                (substr reqPath reqIdx reqPath.length).bind fun value =>
                  match assignMatch pathMatches key value with
                  | .throws => some .throws
                  | .returns pathMatches => some (.returns (resIdx == resPath.length, pathMatches))
        else if c = 0x3A then
          let keyStart := resIdx + 1
          (toSlash resPath resPath.length keyStart).bind fun resIdx =>
            (substr resPath keyStart (resIdx - keyStart)).bind fun key =>
              let valueStart := reqIdx
              (toSlash reqPath reqPath.length reqIdx).bind fun reqIdx =>
                (substr reqPath valueStart (reqIdx - valueStart)).bind fun value =>
                  match assignMatch pathMatches key value with
                  | .throws => some .throws
                  | .returns pathMatches => scan resPath reqPath fuel resIdx reqIdx pathMatches
        else if reqIdx ≥ reqPath.length then some (.returns (false, pathMatches))
        else
          reqPath[reqIdx]?.bind fun d =>
            if c ≠ d then some (.returns (false, pathMatches))
            else scan resPath reqPath fuel (resIdx + 1) (reqIdx + 1) pathMatches
    else some (.returns (resIdx == resPath.length && reqIdx == reqPath.length, pathMatches))

/-- `matches` -/
def scanPath (resPath reqPath : Bytes) (pathMatches : Json) : Option (Call (Bool × Json)) :=
  scan resPath reqPath (resPath.length + 1) 0 0 pathMatches

/-- the segment at an index -/
theorem segment_at (path : Bytes) (idx : ℕ) :
    (path.drop idx).take ((path.drop idx).takeWhile (· ≠ slash)).length = (path.drop idx).takeWhile (· ≠ slash) ∧
      path.drop (idx + ((path.drop idx).takeWhile (· ≠ slash)).length) = (path.drop idx).dropWhile (· ≠ slash) := by
  have hsplit : path.drop idx = (path.drop idx).takeWhile (· ≠ slash) ++ (path.drop idx).dropWhile (· ≠ slash) :=
    List.takeWhile_append_dropWhile.symm
  rw [← List.drop_drop]
  exact ⟨(congrArg _ hsplit).trans (List.take_left' rfl), (congrArg _ hsplit).trans (List.drop_left' rfl)⟩

theorem segment_le {path : Bytes} {idx : ℕ} (hidx : idx ≤ path.length) :
    idx + ((path.drop idx).takeWhile (· ≠ slash)).length ≤ path.length := by
  have hle := (List.takeWhile_sublist (· ≠ slash) (l := path.drop idx)).length_le
  rw [List.length_drop] at hle
  omega

theorem toSlash_eq (path : Bytes) (fuel : ℕ) {idx : ℕ} (hidx : idx ≤ path.length) (hfuel : path.length ≤ fuel + idx) :
    toSlash path fuel idx = some (idx + ((path.drop idx).takeWhile (· ≠ slash)).length) := by
  induction fuel generalizing idx with
  | zero =>
    have hlast : idx = path.length := le_antisymm hidx (by simpa using hfuel)
    simp [toSlash, hlast]
  | succ fuel ih =>
    rw [toSlash]
    split_ifs with hlt
    · rw [List.getElem?_eq_getElem hlt, Option.bind_some, List.drop_eq_getElem_cons hlt, List.takeWhile_cons]
      by_cases hc : path[idx] = slash
      · simp [hc]
      · rw [if_pos hc, ih hlt (by omega), if_pos (decide_eq_true hc), List.length_cons, Nat.succ_add]
        rfl
    · rw [List.drop_eq_nil_of_le (not_lt.1 hlt)]
      rfl

/-- the length of a suffix is zero exactly at the end -/
theorem beq_length {path : Bytes} {idx : ℕ} (hidx : idx ≤ path.length) :
    (idx == path.length) = (path.drop idx).isEmpty := by
  rw [Bool.eq_iff_iff, beq_iff_eq, List.isEmpty_iff, List.drop_eq_nil_iff]
  omega

/-- **No access is outside**, and the scan is the loop on what is left of the two strings. -/
theorem scan_eq (resPath reqPath : Bytes) (fuel : ℕ) {resIdx reqIdx : ℕ} (hres : resIdx ≤ resPath.length)
    (hreq : reqIdx ≤ reqPath.length) (pathMatches : Json) :
    scan resPath reqPath fuel resIdx reqIdx pathMatches =
      some (matchesLoop fuel (resPath.drop resIdx) (reqPath.drop reqIdx) pathMatches) := by
  induction fuel generalizing resIdx reqIdx pathMatches with
  | zero => rfl
  | succ fuel ih =>
    rw [scan]
    by_cases hlt : resIdx < resPath.length
    · have hstart : resIdx + 1 ≤ resPath.length := hlt
      obtain ⟨hkey, hrest⟩ := segment_at resPath (resIdx + 1)
      have hend : resIdx + 1 + ((resPath.drop (resIdx + 1)).takeWhile (· ≠ slash)).length ≤ resPath.length :=
        segment_le hlt
      have hto := toSlash_eq resPath resPath.length hstart (by omega)
      rw [if_pos hlt, List.getElem?_eq_getElem hlt, Option.bind_some, List.drop_eq_getElem_cons hlt]
      generalize resPath[resIdx] = c
      simp only [matchesLoop]
      by_cases hstar : c = 0x2A
      · simp only [if_pos hstar, hto, Option.bind_some]
        by_cases hempty : ((resPath.drop (resIdx + 1)).takeWhile (· ≠ slash)).isEmpty
        · rw [if_pos hempty, List.isEmpty_iff.1 hempty]
          simp
        · have hlength : ((resPath.drop (resIdx + 1)).takeWhile (· ≠ slash)).length ≠ 0 := fun hzero =>
            hempty (List.isEmpty_iff.2 (List.length_eq_zero_iff.1 hzero))
          rw [if_neg hempty, if_neg (by omega), substr, if_pos hstart, Nat.add_sub_cancel_left, hkey, Option.bind_some,
            substr, if_pos hreq, List.take_of_length_le (by simp), Option.bind_some, beq_length hend, hrest]
          rcases assignMatch pathMatches _ _ with v | _
          · rfl
          · rfl
      · by_cases hcolon : c = 0x3A
        · obtain ⟨hvalue, hreqRest⟩ := segment_at reqPath reqIdx
          have hreqTo := toSlash_eq reqPath reqPath.length hreq (by omega)
          simp only [if_neg hstar, if_pos hcolon, hto, hreqTo, Option.bind_some]
          rw [substr, if_pos hstart, Nat.add_sub_cancel_left, hkey, Option.bind_some, substr, if_pos hreq,
            Nat.add_sub_cancel_left, hvalue, Option.bind_some]
          rcases assignMatch pathMatches _ _ with v | _
          · simp only
            rw [ih hend (segment_le hreq), hrest, hreqRest]
          · rfl
        · simp only [if_neg hstar, if_neg hcolon]
          by_cases hge : reqIdx ≥ reqPath.length
          · rw [if_pos hge, List.drop_eq_nil_of_le hge]
          · have hreqLt : reqIdx < reqPath.length := not_le.1 hge
            rw [if_neg hge, List.getElem?_eq_getElem hreqLt, Option.bind_some, List.drop_eq_getElem_cons hreqLt]
            simp only
            split_ifs with hne
            · rfl
            · exact ih hlt hreqLt pathMatches
    · have hnil : resPath.drop resIdx = [] := List.drop_eq_nil_of_le (not_lt.1 hlt)
      rw [if_neg hlt, beq_length hres, beq_length hreq, hnil, matchesLoop, List.isEmpty_nil, Bool.true_and]

theorem scanPath_eq (resPath reqPath : Bytes) (pathMatches : Json) :
    scanPath resPath reqPath pathMatches = some (matchesPath resPath reqPath pathMatches) :=
  scan_eq resPath reqPath _ (Nat.zero_le _) (Nat.zero_le _) pathMatches

/-- an object or null takes every assignment -/
theorem assignMatch_members {pathMatches : Json} {ms : List (Bytes × Json)} (hms : members pathMatches = some ms)
    (key value : Bytes) :
    ∃ v, assignMatch pathMatches key value = .returns v ∧
      members v = some (SortedMap.insert key (.string value) ms) := by
  cases pathMatches with
  | null =>
    obtain rfl := Option.some.inj hms
    exact ⟨_, rfl, rfl⟩
  | object ms' =>
    obtain rfl := Option.some.inj hms
    exact ⟨_, rfl, rfl⟩
  | _ => exact absurd hms (by simp [members])

theorem assignAll_members {pathMatches : Json} {ms : List (Bytes × Json)} (hms : members pathMatches = some ms)
    (assignments : List (Bytes × Bytes)) :
    ∃ v, assignAll assignments pathMatches = .returns v ∧ members v = some (store ms assignments) := by
  induction assignments generalizing pathMatches ms with
  | nil => exact ⟨pathMatches, rfl, hms⟩
  | cons e assignments ih =>
    obtain ⟨v, hv, hmembers⟩ := assignMatch_members hms e.1 e.2
    rw [assignAll, hv]
    exact ih hmembers

/-- **Path matching is its meaning.** No access is outside. The pattern matches exactly if it denotes the path; then
its values are unique, and the object holds for every key the value of its last wildcard, and nothing else. -/
theorem scanPath_denotes (resPath reqPath : Bytes) (pathMatches : Json) (hempty : members pathMatches = some []) :
    ∃ found captured, scanPath resPath reqPath pathMatches = some (.returns (found, captured)) ∧
      (found = true ↔ ∃ values, Denotes resPath values reqPath) ∧
      ∀ values, Denotes resPath values reqPath →
        (∀ other, Denotes resPath other reqPath → other = values) ∧
        ∃ ms, members captured = some ms ∧
          ∀ key, SortedMap.find key ms = ((bindings resPath values).reverse.lookup key).map Json.string := by
  obtain ⟨v, hv, hms⟩ := assignAll_members hempty (captures resPath reqPath)
  refine ⟨matched resPath reqPath, v, ?_, matched_iff resPath reqPath, fun values h => ?_⟩
  · rw [scanPath_eq, matchesPath_eq, hv]
  · refine ⟨fun other hother => hother.unique h, _, hms, fun key => ?_⟩
    rw [h.captures, find_store_nil]

theorem gpio_denotes :
    ∃ captured, scanPath (text "gpio/:pin") (text "gpio/4") .null = some (.returns (true, captured)) ∧
      ∃ values, Denotes (text "gpio/:pin") values (text "gpio/4") := by
  obtain ⟨found, captured, hscan, hfound, -⟩ := scanPath_denotes (text "gpio/:pin") (text "gpio/4") .null rfl
  obtain ⟨values, hvalues⟩ := (matched_iff (text "gpio/:pin") (text "gpio/4")).1 (by decide)
  obtain rfl := hfound.2 ⟨values, hvalues⟩
  exact ⟨captured, hscan, values, hvalues⟩

/-! ## Patterns that assign on the way -/

/-- a wildcard of the pattern is reached: the letters before the first one begin the path, and it is no `*` without a
key -/
def Reaches (resPath reqPath : Bytes) : Prop :=
  ∃ letters token template, tokens resPath = letters.map Token.letter ++ token :: template ∧
    (∃ key, token = .segment key ∨ token = .rest key ∧ key ≠ []) ∧ letters <+: reqPath

theorem reaches_letter {c : UInt8} {resPath : Bytes} (h : tokens (c :: resPath) = .letter c :: tokens resPath)
    (reqPath : Bytes) : Reaches (c :: resPath) reqPath ↔ ∃ rest, reqPath = c :: rest ∧ Reaches resPath rest := by
  refine ⟨fun ⟨letters, token, template, htokens, htoken, hprefix⟩ => ?_, ?_⟩
  · rw [h] at htokens
    rcases letters with _ | ⟨d, letters⟩
    · obtain ⟨key, rfl | ⟨rfl, -⟩⟩ := htoken
      · exact absurd htokens (by simp)
      · exact absurd htokens (by simp)
    · obtain ⟨hd, htail⟩ := List.cons.inj htokens
      obtain rfl := Token.letter.inj hd
      obtain ⟨rest, rfl⟩ := hprefix
      exact ⟨letters ++ rest, rfl, letters, token, template, htail, htoken, rest, rfl⟩
  · rintro ⟨rest, rfl, letters, token, template, htokens, htoken, hprefix⟩
    exact ⟨c :: letters, token, template, by rw [h, htokens]; rfl, htoken, (List.cons_prefix_cons).2 ⟨rfl, hprefix⟩⟩

theorem reaches_segment {resPath key : Bytes} {template : List PathToken}
    (h : tokens resPath = .segment key :: template) (reqPath : Bytes) : Reaches resPath reqPath :=
  ⟨[], .segment key, template, h, ⟨key, Or.inl rfl⟩, List.nil_prefix⟩

theorem reaches_rest {resPath key : Bytes} {template : List PathToken} (h : tokens resPath = .rest key :: template)
    (reqPath : Bytes) : Reaches resPath reqPath ↔ key ≠ [] := by
  refine ⟨fun ⟨letters, token, template', htokens, ⟨key', htoken⟩, _⟩ => ?_, fun hkey => ?_⟩
  · rw [h] at htokens
    rcases letters with _ | ⟨d, letters⟩
    · obtain ⟨rfl, -⟩ := List.cons.inj htokens
      obtain heq | ⟨heq, hkey⟩ := htoken
      · exact absurd heq (by simp)
      · rw [Token.rest.inj heq]
        exact hkey
    · exact absurd htokens (by simp)
  · exact ⟨[], .rest key, template, h, ⟨key, Or.inr ⟨rfl, hkey⟩⟩, List.nil_prefix⟩

/-- something is captured exactly if a wildcard is reached -/
theorem capturesLoop_ne_nil_iff (fuel : ℕ) (resPath reqPath : Bytes) (hfuel : resPath.length < fuel) :
    (capturesLoop fuel resPath reqPath).2 ≠ [] ↔ Reaches resPath reqPath := by
  induction fuel generalizing resPath reqPath with
  | zero => exact absurd hfuel (by simp)
  | succ fuel ih =>
    rcases resPath with _ | ⟨c, resPath⟩
    · simp [capturesLoop, Reaches, tokens]
    · simp only [capturesLoop]
      split_ifs with hstar hkey hcolon
      · rw [reaches_rest (by rw [tokens, if_pos hstar]), List.isEmpty_iff.1 hkey]
        simp
      · rw [reaches_rest (by rw [tokens, if_pos hstar])]
        simpa using fun heq => hkey (List.isEmpty_iff.2 heq)
      · have htokens : tokens (c :: resPath) =
            .segment (resPath.takeWhile (· ≠ slash)) :: tokens (resPath.dropWhile (· ≠ slash)) := by
          rw [tokens, if_neg hstar, if_pos hcolon]
        exact iff_of_true (List.cons_ne_nil _ _) (reaches_segment htokens reqPath)
      · have htokens : tokens (c :: resPath) = .letter c :: tokens resPath := by
          rw [tokens, if_neg hstar, if_neg hcolon]
        rw [reaches_letter htokens]
        rcases reqPath with _ | ⟨d, reqPath⟩
        · simp
        · simp only
          split_ifs with hne
          · simp [Ne.symm hne]
          · rw [ih resPath reqPath (by simpa using hfuel), ← not_not.1 hne]
            simp

theorem captures_ne_nil_iff (resPath reqPath : Bytes) : captures resPath reqPath ≠ [] ↔ Reaches resPath reqPath :=
  capturesLoop_ne_nil_iff _ resPath reqPath (Nat.lt_succ_self _)

end Iotmp
