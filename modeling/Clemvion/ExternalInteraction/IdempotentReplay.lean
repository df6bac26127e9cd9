import Clemvion.ExternalInteraction.IdempotencyInterceptor

/-!
# IdempotentReplay — what a sequence of requests with idempotency keys can count on

A stored text is read against the digest of a body: there is nothing to use, it belongs to another
body, or it has an answer.  One request changes the reading of a cell only from nothing to
something, so that what was answered once is answered for good.
-/

open Clemvion.Js JsonText Clemvion.Library

namespace Clemvion.ExternalInteraction

/-! ## 1. Reading an entry -/

/-- What a cell of the store says to a request. -/
inductive Reading
  | miss | conflict
  | hit (statusCode : Int) (payload : PlainData)
  deriving DecidableEq

def entryOf (cell : Option String) : Option IdempotencyEntry :=
  (cell.bind parse).bind isIdempotencyEntry

def IdempotencyEntry.read (entry : IdempotencyEntry) (bodyHash : String) : Reading :=
  if entry.bodyHash ≠ bodyHash then .conflict
  else
    match parsePayload entry.responseJson with
    | none => .miss
    | some payload => .hit entry.statusCode payload

def readEntry (bodyHash : String) (cell : Option String) : Reading :=
  match entryOf cell with
  | none => .miss
  | some entry => entry.read bodyHash

def answerReading (cache : Cache) (r : Request) (redisKey bodyHash : String) : Reading → Reply
  | .miss => processFresh cache r redisKey bodyHash
  | .conflict => ⟨.error keyConflict, .rejected, cache⟩
  | .hit statusCode payload => ⟨replay r statusCode payload, .fromCache, cache⟩

theorem readEntry_of_entryOf {cell : Option String} {entry : IdempotencyEntry}
    (h : entryOf cell = some entry) (bodyHash : String) :
    readEntry bodyHash cell = entry.read bodyHash := by
  unfold readEntry
  rw [h]

theorem readEntry_of_entryOf_none {cell : Option String} (h : entryOf cell = none)
    (bodyHash : String) : readEntry bodyHash cell = .miss := by
  unfold readEntry
  rw [h]

/-- The seven branches are three readings. -/
theorem resolveCacheHit_eq (cache : Cache) (r : Request) (redisKey bodyHash : String)
    (cell : Option String) :
    resolveCacheHit cache r redisKey bodyHash cell =
      answerReading cache r redisKey bodyHash (readEntry bodyHash cell) := by
  cases cell with
  | none => rfl
  | some cachedJson =>
    show ite (cachedJson = "") _ _ = _
    by_cases hempty : cachedJson = ""
    · rw [if_pos hempty, hempty]
      rfl
    rw [if_neg hempty]
    unfold readEntry entryOf
    rw [Option.bind_some]
    cases parse cachedJson with
    | none => rfl
    | some parsed =>
      rw [Option.bind_some]
      cases hentry : isIdempotencyEntry parsed with
      | none => simp only [hentry]; rfl
      | some cached =>
        simp only [hentry, IdempotencyEntry.read]
        split_ifs with hbody
        · rfl
        · cases parsePayload cached.responseJson <;> rfl

theorem IdempotencyEntry.read_eq_conflict_iff {entry : IdempotencyEntry} {bodyHash : String} :
    entry.read bodyHash = .conflict ↔ entry.bodyHash ≠ bodyHash := by
  unfold IdempotencyEntry.read
  split_ifs with hbody
  · exact iff_of_true rfl hbody
  · cases parsePayload entry.responseJson with
    | none => exact iff_of_false (by nofun) hbody
    | some payload => exact iff_of_false (by nofun) hbody

theorem entry_of_hit {cell : Option String} {bodyHash : String} {statusCode : Int}
    {payload : PlainData} (h : readEntry bodyHash cell = .hit statusCode payload) :
    ∃ entry, entryOf cell = some entry ∧ entry.statusCode = statusCode ∧
      parsePayload entry.responseJson = some payload := by
  cases hentry : entryOf cell with
  | none =>
    rw [readEntry_of_entryOf_none hentry] at h
    cases h
  | some entry =>
    rw [readEntry_of_entryOf hentry] at h
    unfold IdempotencyEntry.read at h
    split_ifs at h with hbody
    cases hpayload : parsePayload entry.responseJson with
    | none =>
      rw [hpayload] at h
      cases h
    | some read =>
      rw [hpayload] at h
      obtain ⟨hstatus, hread⟩ := Reading.hit.inj h
      exact ⟨entry, rfl, hstatus, by rw [hpayload, hread]⟩

theorem entryOf_ne_none {cell : Option String} {bodyHash : String}
    (h : readEntry bodyHash cell ≠ .miss) : entryOf cell ≠ none :=
  fun hnone => h (readEntry_of_entryOf_none hnone bodyHash)

/-- An entry rejects every body but the one it is for. -/
theorem readEntry_of_ne {cell : Option String} {bodyHash other : String} (hne : other ≠ bodyHash)
    (hentry : entryOf cell ≠ none) (hother : readEntry other cell ≠ .conflict) :
    readEntry bodyHash cell = .conflict := by
  obtain ⟨entry, hentry⟩ := Option.ne_none_iff_exists'.mp hentry
  rw [readEntry_of_entryOf hentry] at hother ⊢
  rw [IdempotencyEntry.read_eq_conflict_iff]
  have hbody : entry.bodyHash = other :=
    not_not.mp (mt IdempotencyEntry.read_eq_conflict_iff.mpr hother)
  rw [hbody]
  exact hne

/-! ## 2. What is stored is read back -/

/-- The payload as it is parsed again. -/
def PlainData.reread (payload : PlainData) : PlainData :=
  ⟨(orNull payload.value).jsonRoundTrip, hasText_orNull_of_parse
    (parse_stringify_of_hasText payload.hasText)⟩

theorem parsePayload_eq_some {text : String} {v : Value} (h : parse text = some v) :
    ∃ hasText, parsePayload text = some ⟨v, hasText⟩ := by
  unfold parsePayload
  split
  · rename_i w hw
    obtain rfl : w = v := Option.some.inj (hw.symm.trans h)
    exact ⟨hasText_orNull_of_parse h, rfl⟩
  · rename_i hnone
    rw [h] at hnone
    cases hnone

theorem parsePayload_json (payload : PlainData) : parsePayload payload.json = some payload.reread := by
  obtain ⟨_, h⟩ := parsePayload_eq_some (parse_stringify_of_hasText payload.hasText)
  exact h

theorem json_reread (payload : PlainData) : payload.reread.json = payload.json := by
  unfold PlainData.json PlainData.reread
  rw [orNull_of_isJson payload.hasText.1]
  exact congrArg String.ofList (writeValue_jsonRoundTrip _)

def entryValue (bodyHash responseJson : String) (statusCode : Int) : Value :=
  .obj [("bodyHash", .str bodyHash), ("responseJson", .str responseJson),
    ("statusCode", .num (.finite statusCode))]

theorem parse_entryText (bodyHash responseJson : String) (statusCode : Int) :
    parse (entryText bodyHash responseJson statusCode) =
      some (entryValue bodyHash responseJson statusCode) := by
  refine parse_stringify (v := entryValue bodyHash responseJson statusCode) ?_ ?_
  · have hdecimal : IsDecimal (statusCode : Rat) := ⟨0, by simp⟩
    exact ⟨trivial, trivial, hdecimal, trivial⟩
  · have hkeys : ["bodyHash", "responseJson", "statusCode"].Nodup := by decide
    exact ⟨hkeys, trivial, trivial, trivial, trivial⟩

theorem entryOf_entryText (bodyHash responseJson : String) {statusCode : Int}
    (h : minHttpStatusCode ≤ statusCode ∧ statusCode ≤ maxHttpStatusCode) :
    entryOf (some (entryText bodyHash responseJson statusCode)) =
      some ⟨bodyHash, responseJson, statusCode, h⟩ := by
  unfold entryOf
  rw [Option.bind_some, parse_entryText, Option.bind_some]
  show dite (((statusCode : Rat).den = 1) ∧ minHttpStatusCode ≤ (statusCode : Rat).num ∧
    (statusCode : Rat).num ≤ maxHttpStatusCode) _ _ = _
  rw [dif_pos ⟨Rat.den_intCast statusCode, h⟩]
  rfl

/-! ## 3. The outcomes that are kept -/

/-- What is kept of an outcome on the closed list. -/
structure Recorded where
  statusCode : Int
  responseJson : String
  deriving DecidableEq

/-- A `2xx` value, a `409` or a `410`, with the JSON of its payload. -/
def Outcome.recorded : Outcome → Option Recorded
  | .value statusCode (.data payload) =>
    if 200 ≤ statusCode.getD 200 ∧ statusCode.getD 200 < 300 then
      some ⟨statusCode.getD 200, payload.json⟩
    else none
  | .error (.httpException status (.data response)) =>
    if isErrorStatusCacheable status then some ⟨status, response.json⟩ else none
  | _ => none

theorem Outcome.recorded_value (statusCode : Option Int) (payload : PlainData) :
    (Outcome.value statusCode (.data payload)).recorded =
      if 200 ≤ statusCode.getD 200 ∧ statusCode.getD 200 < 300 then
        some ⟨statusCode.getD 200, payload.json⟩
      else none := rfl

theorem Outcome.recorded_httpException (status : Int) (response : PlainData) :
    (Outcome.error (.httpException status (.data response))).recorded =
      if isErrorStatusCacheable status then some ⟨status, response.json⟩ else none := rfl

theorem storeEntry_data {redis : RedisCondition} (hset : redis.setFails = false) (cache : Cache)
    (redisKey bodyHash : String) (statusCode : Int) (payload : PlainData) :
    storeEntry cache redis redisKey bodyHash statusCode (.data payload) =
      Function.update cache redisKey (some (entryText bodyHash payload.json statusCode)) := by
  show ite _ _ _ = _
  rw [hset]
  rfl

theorem isErrorStatusCacheable_iff {status : Int} :
    isErrorStatusCacheable status = true ↔ status = 409 ∨ status = 410 := by
  simp [isErrorStatusCacheable]

/-- The closed list of statuses. -/
def Listed (status : Int) : Prop := 200 ≤ status ∧ status < 300 ∨ status = 409 ∨ status = 410

theorem Listed.isHttpStatusCode {status : Int} (h : Listed status) :
    minHttpStatusCode ≤ status ∧ status ≤ maxHttpStatusCode := by
  unfold minHttpStatusCode maxHttpStatusCode
  unfold Listed at h
  omega

theorem Outcome.recorded_spec {outcome : Outcome} {kept : Recorded}
    (h : outcome.recorded = some kept) :
    Listed kept.statusCode ∧ ∃ payload : PlainData, payload.json = kept.responseJson := by
  cases outcome with
  | value statusCode payload =>
    cases payload with
    | unserializable => cases h
    | data payload =>
      obtain ⟨hrange, hkept⟩ := Option.ite_none_right_eq_some.mp h
      obtain rfl := Option.some.inj hkept
      exact ⟨.inl hrange, payload, rfl⟩
  | error err =>
    cases err with
    | other message => cases h
    | httpException status response =>
      cases response with
      | unserializable => cases h
      | data response =>
        obtain ⟨hcacheable, hkept⟩ := Option.ite_none_right_eq_some.mp h
        obtain rfl := Option.some.inj hkept
        exact ⟨.inr (isErrorStatusCacheable_iff.mp hcacheable), response, rfl⟩

theorem recorded_replay {r : Request} (hstatus : r.res.hasStatus = true) (statusCode : Int)
    (payload : PlainData) (kept : Recorded) :
    (replay r statusCode payload).recorded = some kept ↔
      Listed statusCode ∧ kept = ⟨statusCode, payload.json⟩ := by
  unfold replay Listed
  by_cases herror : isErrorStatusCacheable statusCode = true
  · rw [if_pos herror, Outcome.recorded_httpException, if_pos herror, Option.some.injEq, eq_comm]
    exact ⟨fun h => ⟨.inr (isErrorStatusCacheable_iff.mp herror), h⟩, fun h => h.2⟩
  · have hne : ¬(statusCode = 409 ∨ statusCode = 410) := mt isErrorStatusCacheable_iff.mpr herror
    rw [if_neg herror, if_pos hstatus, Outcome.recorded_value, Option.getD_some,
      Option.ite_none_right_eq_some, Option.some.injEq, or_iff_left hne]
    exact and_congr_right fun _ => eq_comm

/-- The handler's outcome is stored when it is on the list, else the store stays as it is. -/
theorem cacheTapped_eq {redis : RedisCondition} (hset : redis.setFails = false) (cache : Cache)
    (redisKey bodyHash : String) (outcome : Outcome) :
    cacheTapped cache redis redisKey bodyHash outcome =
      (outcome.recorded.map fun kept => Function.update cache redisKey
        (some (entryText bodyHash kept.responseJson kept.statusCode))).getD cache := by
  cases outcome with
  | value statusCode payload =>
    show ite _ _ _ = _
    cases payload with
    | unserializable => exact ite_self cache
    | data payload =>
      rw [Outcome.recorded_value]
      by_cases hrange : 200 ≤ statusCode.getD 200 ∧ statusCode.getD 200 < 300
      · rw [if_neg (by omega), if_pos hrange, storeEntry_data hset]
        rfl
      · rw [if_pos (by omega), if_neg hrange]
        rfl
  | error err =>
    cases err with
    | other message => rfl
    | httpException status response =>
      show ite _ _ _ = _
      cases response with
      | unserializable => exact ite_self cache
      | data response =>
        rw [Outcome.recorded_httpException]
        split_ifs
        · rw [storeEntry_data hset]
          rfl
        · rfl

/-! ## 4. One request -/

def Request.scope (r : Request) : Option Scope := do
  let rawKey ← readKey r.idempotencyKey
  let executionId ← r.executionId
  if executionId.value = "" then none else some ⟨executionId, r.route, rawKey⟩

section Requests

variable (sha256Hex : String → String)

def Request.bodyHash (r : Request) : String := hashBody sha256Hex r.body

/-- What the store says to a request. -/
def Request.reading (r : Request) (cache : Cache) (scope : Scope) : Reading :=
  readEntry (r.bodyHash sha256Hex) (cache scope.redisKey)

end Requests

variable {sha256Hex : String → String} {r : Request} {scope : Scope}

theorem intercept_of_scope (hscope : r.scope = some scope) (hredis : r.redis.available)
    (cache : Cache) :
    intercept sha256Hex cache r =
      answerReading cache r scope.redisKey (r.bodyHash sha256Hex)
        (r.reading sha256Hex cache scope) := by
  obtain ⟨hconnected, hget, -⟩ := hredis
  unfold Request.scope at hscope
  obtain ⟨rawKey, hkey, hscope⟩ := Option.bind_eq_some_iff.mp hscope
  obtain ⟨executionId, hid, hscope⟩ := Option.bind_eq_some_iff.mp hscope
  obtain ⟨hne, heq⟩ := Option.ite_none_left_eq_some.mp hscope
  obtain rfl := Option.some.inj heq
  unfold intercept
  simp only [hkey, hid, hconnected, hget, if_true, if_neg hne]
  exact resolveCacheHit_eq cache r _ _ _

theorem intercept_of_no_scope (hscope : r.scope = none) (cache : Cache) :
    intercept sha256Hex cache r = passThrough cache r := by
  unfold intercept
  cases hkey : readKey r.idempotencyKey with
  | none => rfl
  | some rawKey =>
    cases hconnected : r.redis.connected with
    | false => rfl
    | true =>
      cases hid : r.executionId with
      | none => rfl
      | some executionId =>
        have hempty : executionId.value = "" := by
          unfold Request.scope at hscope
          rw [hkey, hid] at hscope
          by_contra hne
          rw [Option.bind_eq_bind, Option.bind_some, Option.bind_eq_bind, Option.bind_some,
            if_neg hne] at hscope
          cases hscope
        simp only [if_true, if_pos hempty]

/-- The key says which execution, route and header it was made of. -/
theorem redisKey_injective {scope scope' : Scope} (h : scope.redisKey = scope'.redisKey) :
    scope = scope' := by
  obtain ⟨⟨id, hid⟩, route, rawKey⟩ := scope
  obtain ⟨⟨id', hid'⟩, route', rawKey'⟩ := scope'
  have hchars : id.toList ++ ':' :: (route.name.toList ++ ':' :: rawKey.toList) =
      id'.toList ++ ':' :: (route'.name.toList ++ ':' :: rawKey'.toList) := by
    have htext := congrArg String.toList h
    unfold Scope.redisKey at htext
    simp only [String.toList_append, List.append_assoc] at htext
    exact List.append_cancel_left htext
  have hroute : ∀ route : Route, ':' ∉ route.name.toList := by
    intro route
    cases route <;> decide
  obtain ⟨hids, hrest⟩ := append_sep_inj_left hid hid' hchars
  obtain ⟨hroutes, hkeys⟩ := append_sep_inj_left (hroute route) (hroute route') hrest
  obtain rfl := String.toList_inj.mp hids
  obtain rfl := String.toList_inj.mp hkeys
  obtain rfl : route = route' := by
    cases route <;> cases route' <;> first | rfl | exact absurd hroutes (by decide)
  rfl

/-- After an outcome on the list was stored, its body is answered and every other one rejected. -/
theorem readEntry_entryText {outcome : Outcome} {kept : Recorded}
    (h : outcome.recorded = some kept) (bodyHash : String) :
    (∃ payload : PlainData, payload.json = kept.responseJson ∧
      readEntry bodyHash (some (entryText bodyHash kept.responseJson kept.statusCode)) =
        .hit kept.statusCode payload) ∧
    ∀ other ≠ bodyHash,
      readEntry other (some (entryText bodyHash kept.responseJson kept.statusCode)) =
        .conflict := by
  obtain ⟨hlisted, payload, hpayload⟩ := Outcome.recorded_spec h
  have hentry := entryOf_entryText bodyHash kept.responseJson hlisted.isHttpStatusCode
  refine ⟨⟨payload.reread, (json_reread payload).trans hpayload, ?_⟩, ?_⟩
  · rw [readEntry_of_entryOf hentry]
    unfold IdempotencyEntry.read
    rw [if_neg (not_not.mpr rfl), ← hpayload]
    simp only [parsePayload_json]
  · intro other hother
    rw [readEntry_of_entryOf hentry, IdempotencyEntry.read_eq_conflict_iff]
    exact hother.symm

/-- The entries of other executions, routes and keys stay as they are. -/
theorem intercept_cell_of_ne (hredis : r.redis.available) (hne : r.scope ≠ some scope)
    (cache : Cache) : (intercept sha256Hex cache r).cache scope.redisKey = cache scope.redisKey := by
  cases hscope : r.scope with
  | none => rw [intercept_of_no_scope hscope]; rfl
  | some own =>
    rw [intercept_of_scope hscope hredis]
    cases r.reading sha256Hex cache own with
    | conflict => rfl
    | hit statusCode payload => rfl
    | miss =>
      show cacheTapped cache r.redis own.redisKey _ r.handler scope.redisKey = _
      rw [cacheTapped_eq hredis.2.2]
      cases r.handler.recorded with
      | none => rfl
      | some kept =>
        refine Function.update_of_ne ?_ _ _
        intro hkey
        exact hne (hscope.trans (congrArg some (redisKey_injective hkey).symm))

/-- What a cell says to a body it goes on saying. -/
theorem readEntry_intercept (hredis : r.redis.available) {cache : Cache} {bodyHash : String}
    (h : readEntry bodyHash (cache scope.redisKey) ≠ .miss) :
    readEntry bodyHash ((intercept sha256Hex cache r).cache scope.redisKey) =
      readEntry bodyHash (cache scope.redisKey) := by
  by_cases hscope : r.scope = some scope
  · rw [intercept_of_scope hscope hredis]
    cases hreading : r.reading sha256Hex cache scope with
    | conflict => rfl
    | hit statusCode payload => rfl
    | miss =>
      show readEntry bodyHash (cacheTapped cache r.redis scope.redisKey _ r.handler scope.redisKey) = _
      rw [cacheTapped_eq hredis.2.2]
      cases hkept : r.handler.recorded with
      | none => rfl
      | some kept =>
        -- a body that the cell answers is not the one that the handler has just run for
        have hne : bodyHash ≠ r.bodyHash sha256Hex := by
          rintro rfl
          exact h hreading
        have hother : readEntry (r.bodyHash sha256Hex) (cache scope.redisKey) ≠ .conflict := by
          rw [show readEntry (r.bodyHash sha256Hex) (cache scope.redisKey) = .miss from hreading]
          decide
        rw [Option.map_some, Option.getD_some, Function.update_self,
          (readEntry_entryText hkept (r.bodyHash sha256Hex)).2 bodyHash hne,
          readEntry_of_ne hne.symm (entryOf_ne_none h) hother]
  · rw [intercept_cell_of_ne hredis hscope]

theorem readEntry_cacheAfter {requests : List Request} (hredis : ∀ r ∈ requests, r.redis.available)
    {cache : Cache} {bodyHash : String} (h : readEntry bodyHash (cache scope.redisKey) ≠ .miss) :
    readEntry bodyHash (cacheAfter sha256Hex cache requests scope.redisKey) =
      readEntry bodyHash (cache scope.redisKey) := by
  induction requests generalizing cache with
  | nil => rfl
  | cons r requests ih =>
    have hstep : readEntry bodyHash ((intercept sha256Hex cache r).cache scope.redisKey) =
        readEntry bodyHash (cache scope.redisKey) :=
      readEntry_intercept (hredis r List.mem_cons_self) h
    have hrest := ih (fun r' hr' => hredis r' (List.mem_cons_of_mem r hr')) (hstep.symm ▸ h)
    exact hrest.trans hstep

/-- A request that was answered from the list leaves a cell that has its answer, or rejects it. -/
theorem readEntry_of_recorded (hscope : r.scope = some scope) (hredis : r.redis.available)
    (hstatus : r.res.hasStatus = true) {cache : Cache} {kept : Recorded}
    (hkept : (intercept sha256Hex cache r).answer.recorded = some kept) :
    ((intercept sha256Hex cache r).served = .rejected ∧
      (intercept sha256Hex cache r).answer = .error keyConflict ∧
      readEntry (r.bodyHash sha256Hex) ((intercept sha256Hex cache r).cache scope.redisKey) =
        .conflict) ∨
    ((intercept sha256Hex cache r).served ≠ .rejected ∧
      ∃ payload : PlainData, payload.json = kept.responseJson ∧
        readEntry (r.bodyHash sha256Hex) ((intercept sha256Hex cache r).cache scope.redisKey) =
          .hit kept.statusCode payload) := by
  rw [intercept_of_scope hscope hredis] at hkept ⊢
  cases hreading : r.reading sha256Hex cache scope with
  | conflict => exact .inl ⟨rfl, rfl, hreading⟩
  | hit statusCode payload =>
    rw [hreading] at hkept
    obtain ⟨-, rfl⟩ := (recorded_replay hstatus statusCode payload kept).mp hkept
    exact .inr ⟨nofun, payload, rfl, hreading⟩
  | miss =>
    rw [hreading] at hkept
    have hhandler : r.handler.recorded = some kept := hkept
    obtain ⟨payload, hpayload, hread⟩ :=
      (readEntry_entryText hhandler (r.bodyHash sha256Hex)).1
    refine .inr ⟨nofun, payload, hpayload, ?_⟩
    show readEntry _ (cacheTapped cache r.redis scope.redisKey _ r.handler scope.redisKey) = _
    rw [cacheTapped_eq hredis.2.2, hhandler, Option.map_some, Option.getD_some,
      Function.update_self]
    exact hread

/-- A cell with nothing for a body has nothing for it until some outcome is stored. -/
theorem readEntry_intercept_miss (hredis : r.redis.available) {cache : Cache} {bodyHash : String}
    (hkept : r.scope = some scope → (intercept sha256Hex cache r).answer.recorded = none)
    (h : readEntry bodyHash (cache scope.redisKey) = .miss) :
    readEntry bodyHash ((intercept sha256Hex cache r).cache scope.redisKey) = .miss := by
  by_cases hscope : r.scope = some scope
  · have hnone := hkept hscope
    rw [intercept_of_scope hscope hredis] at hnone ⊢
    cases hreading : r.reading sha256Hex cache scope with
    | conflict => exact h
    | hit statusCode payload => exact h
    | miss =>
      rw [hreading] at hnone
      show readEntry bodyHash (cacheTapped cache r.redis scope.redisKey _ r.handler scope.redisKey) = _
      rw [cacheTapped_eq hredis.2.2, show r.handler.recorded = none from hnone]
      exact h
  · rw [intercept_cell_of_ne hredis hscope]
    exact h

end Clemvion.ExternalInteraction
