import Clemvion.ExternalInteraction.IdempotentReplay

/-!
# IdempotencyContract — the promises of an idempotency key

What a client can count on for a sequence of requests that are served one after the other, from
any content of the store: answers come back, failures may be tried again, another body is rejected,
texts that cannot be read do no harm and scopes do not meet.
-/

open Clemvion.Js JsonText

namespace Clemvion.ExternalInteraction

/-! ## 1. Texts and bodies -/

/-- A text that holds nothing for a request with this body. -/
inductive Unreadable (bodyHash text : String) : Prop
  | notJson (h : parse text = none)
  | wrongShape (v : Value) (h : parse text = some v) (hshape : isIdempotencyEntry v = none)
  | damagedPayload (v : Value) (entry : IdempotencyEntry) (h : parse text = some v)
      (hshape : isIdempotencyEntry v = some entry) (hbody : entry.bodyHash = bodyHash)
      (hpayload : parsePayload entry.responseJson = none)

theorem Unreadable.readEntry {bodyHash text : String} (h : Unreadable bodyHash text) :
    readEntry bodyHash (some text) = .miss := by
  cases h with
  | notJson h =>
    refine readEntry_of_entryOf_none ?_ bodyHash
    unfold entryOf
    rw [Option.bind_some, h]
    rfl
  | wrongShape v h hshape =>
    refine readEntry_of_entryOf_none ?_ bodyHash
    unfold entryOf
    rw [Option.bind_some, h]
    exact hshape
  | damagedPayload v entry h hshape hbody hpayload =>
    have hentry : entryOf (some text) = some entry := by
      unfold entryOf
      rw [Option.bind_some, h]
      exact hshape
    rw [readEntry_of_entryOf hentry]
    unfold IdempotencyEntry.read
    rw [if_neg (not_not.mpr hbody), hpayload]

/-- A body as the parsers leave it in the request: none, an array or an object. -/
def ParsedBody (v : Value) : Prop :=
  v = .undefined ∨ v.isObject = true ∧ IsJson v ∧ DistinctKeys v

theorem ParsedBody.parse_bodyText {v : Value} (h : ParsedBody v) :
    parse (bodyText v) = some (orNull v) := by
  obtain rfl | ⟨hobject, hjson, hkeys⟩ := h
  · exact parse_stringify (v := .null) trivial trivial
  · have htext : bodyText v = stringify (orNull v) := by
      cases v with
      | str s => cases hobject
      | _ => rfl
    rw [htext, orNull_of_isJson hjson]
    exact parse_stringify hjson hkeys

/-- Parsed bodies are told apart by what is hashed of them. -/
theorem ParsedBody.bodyText_inj {v w : Value} (hv : ParsedBody v) (hw : ParsedBody w)
    (h : bodyText v = bodyText w) : v = w := by
  have heq : orNull v = orNull w :=
    Option.some.inj (hv.parse_bodyText.symm.trans ((congrArg parse h).trans hw.parse_bodyText))
  obtain rfl | ⟨hobject, hjson, -⟩ := hv
  · obtain rfl | ⟨hobject', hjson', -⟩ := hw
    · rfl
    · rw [orNull_of_isJson hjson'] at heq
      rw [← heq] at hobject'
      cases hobject'
  · rw [orNull_of_isJson hjson] at heq
    obtain rfl | ⟨hobject', hjson', -⟩ := hw
    · rw [heq] at hobject
      cases hobject
    · rwa [orNull_of_isJson hjson'] at heq

/-! ## 2. Sequences of requests -/

/-- How the request after the given ones is served. -/
def replyAfter (sha256Hex : String → String) (cache : Cache) (before : List Request)
    (r : Request) : Reply :=
  intercept sha256Hex (cacheAfter sha256Hex cache before) r

/-- The contract, over the requests of a sequence and the store it starts from. -/
structure IdempotencyContract (sha256Hex : String → String) (cache : Cache)
    (requests : List Request) : Prop where
  /-- An outcome on the list comes back for the same body, and the handler does not run. -/
  replayed : ∀ before r middle r' after scope kept,
    requests = before ++ r :: (middle ++ r' :: after) →
    r.scope = some scope → r'.scope = some scope → r'.body = r.body →
    (replyAfter sha256Hex cache before r).answer.recorded = some kept →
    (replyAfter sha256Hex cache (before ++ r :: middle) r').served ≠ .byHandler ∧
      (replyAfter sha256Hex cache (before ++ r :: middle) r').answer.recorded = some kept
  /-- As long as no outcome was on the list the handler runs. -/
  retried : ∀ before r after scope, requests = before ++ r :: after → r.scope = some scope →
    r.reading sha256Hex cache scope = .miss →
    (∀ earlier e middle, before = earlier ++ e :: middle → e.scope = some scope →
      (replyAfter sha256Hex cache earlier e).answer.recorded = none) →
    (replyAfter sha256Hex cache before r).served = .byHandler ∧
      (replyAfter sha256Hex cache before r).answer = r.handler
  /-- The key is gone for every body but the one that was answered. -/
  rejected : ∀ before r middle r' after scope kept,
    requests = before ++ r :: (middle ++ r' :: after) →
    r.scope = some scope → r'.scope = some scope → bodyText r'.body ≠ bodyText r.body →
    (replyAfter sha256Hex cache before r).answer.recorded = some kept →
    (replyAfter sha256Hex cache before r).served ≠ .rejected →
    (replyAfter sha256Hex cache (before ++ r :: middle) r').answer = .error keyConflict ∧
      (replyAfter sha256Hex cache (before ++ r :: middle) r').served = .rejected ∧
      (replyAfter sha256Hex cache (before ++ r :: middle) r').cache =
        cacheAfter sha256Hex cache (before ++ r :: middle)
  /-- Bodies that differ are hashed from different texts. -/
  told_apart : ∀ r ∈ requests, ∀ r' ∈ requests, ParsedBody r.body → ParsedBody r'.body →
    r'.body ≠ r.body → bodyText r'.body ≠ bodyText r.body
  /-- A text that holds nothing for the body is as good as none. -/
  unreadable : ∀ r ∈ requests, ∀ (c : Cache) scope text, r.scope = some scope →
    Unreadable (r.bodyHash sha256Hex) text → c scope.redisKey = some text →
    (intercept sha256Hex c r).answer =
        (intercept sha256Hex (Function.update c scope.redisKey none) r).answer ∧
      (intercept sha256Hex c r).served = .byHandler ∧
      (intercept sha256Hex c r).cache scope.redisKey =
        ((intercept sha256Hex (Function.update c scope.redisKey none) r).cache
          scope.redisKey).or (some text)
  /-- An error is the handler's, the one of the entry or the conflict. -/
  errors : ∀ r ∈ requests, ∀ (c : Cache) err, (intercept sha256Hex c r).answer = .error err →
    r.handler = .error err ∧ (intercept sha256Hex c r).served = .byHandler ∨
    err = keyConflict ∧ (intercept sha256Hex c r).served = .rejected ∨
    ∃ scope entry payload, r.scope = some scope ∧ entryOf (c scope.redisKey) = some entry ∧
      parsePayload entry.responseJson = some payload ∧
      isErrorStatusCacheable entry.statusCode = true ∧
      err = .httpException entry.statusCode (.data payload)
  /-- The entries of other executions, routes and keys are left alone. -/
  others_kept : ∀ r ∈ requests, ∀ (c : Cache) scope, r.scope ≠ some scope →
    (intercept sha256Hex c r).cache scope.redisKey = c scope.redisKey
  /-- They are not looked at either. -/
  own_only : ∀ r ∈ requests, ∀ (c c' : Cache) scope, r.scope = some scope →
    c scope.redisKey = c' scope.redisKey →
    (intercept sha256Hex c r).answer = (intercept sha256Hex c' r).answer ∧
      (intercept sha256Hex c r).served = (intercept sha256Hex c' r).served
  /-- No two of them share an entry. -/
  scopes : ∀ scope scope' : Scope, scope.redisKey = scope'.redisKey → scope = scope'

/-! ## 3. One request of a sequence -/

section Requests

variable {sha256Hex : String → String} {r : Request} {scope : Scope}

theorem cacheAfter_append (cache : Cache) (before after : List Request) :
    cacheAfter sha256Hex cache (before ++ after) =
      cacheAfter sha256Hex (cacheAfter sha256Hex cache before) after := List.foldl_append

theorem cacheAfter_cons (cache : Cache) (r : Request) (after : List Request) :
    cacheAfter sha256Hex cache (r :: after) =
      cacheAfter sha256Hex (intercept sha256Hex cache r).cache after := rfl

/-- What the cell says to a body after a request it goes on saying to a later one. -/
theorem readEntry_later {before middle : List Request}
    (hredis : ∀ r ∈ middle, r.redis.available) {cache : Cache} {bodyHash : String}
    (h : readEntry bodyHash ((replyAfter sha256Hex cache before r).cache scope.redisKey) ≠ .miss) :
    readEntry bodyHash (cacheAfter sha256Hex cache (before ++ r :: middle) scope.redisKey) =
      readEntry bodyHash ((replyAfter sha256Hex cache before r).cache scope.redisKey) := by
  rw [cacheAfter_append, cacheAfter_cons]
  exact readEntry_cacheAfter hredis h

/-- Nothing on the list, nothing in the cell. -/
theorem readEntry_of_none_recorded {requests : List Request}
    (hredis : ∀ r ∈ requests, r.redis.available) {cache : Cache} {bodyHash : String}
    (hmiss : readEntry bodyHash (cache scope.redisKey) = .miss)
    (hnone : ∀ earlier e middle, requests = earlier ++ e :: middle → e.scope = some scope →
      (replyAfter sha256Hex cache earlier e).answer.recorded = none) :
    readEntry bodyHash (cacheAfter sha256Hex cache requests scope.redisKey) = .miss := by
  induction requests generalizing cache with
  | nil => exact hmiss
  | cons e requests ih =>
    refine ih (fun r hr => hredis r (List.mem_cons_of_mem e hr)) ?_ ?_
    · exact readEntry_intercept_miss (hredis e List.mem_cons_self) (hnone [] e requests rfl) hmiss
    · intro earlier e' middle heq hscope
      exact hnone (e :: earlier) e' middle (by rw [heq]; rfl) hscope

theorem replyAfter_eq (hscope : r.scope = some scope) (hredis : r.redis.available) (cache : Cache)
    (before : List Request) :
    replyAfter sha256Hex cache before r =
      answerReading (cacheAfter sha256Hex cache before) r scope.redisKey (r.bodyHash sha256Hex)
        (readEntry (r.bodyHash sha256Hex) (cacheAfter sha256Hex cache before scope.redisKey)) :=
  intercept_of_scope hscope hredis _

/-- The outcome comes back. -/
theorem replayed_of_recorded {r' : Request} {before middle : List Request}
    (hredis : r.redis.available) (hredis' : r'.redis.available)
    (hmiddle : ∀ r ∈ middle, r.redis.available) (hstatus : r.res.hasStatus = true)
    (hstatus' : r'.res.hasStatus = true) (hscope : r.scope = some scope)
    (hscope' : r'.scope = some scope) (hbody : r'.body = r.body) {cache : Cache} {kept : Recorded}
    (hkept : (replyAfter sha256Hex cache before r).answer.recorded = some kept) :
    (replyAfter sha256Hex cache (before ++ r :: middle) r').served ≠ .byHandler ∧
      (replyAfter sha256Hex cache (before ++ r :: middle) r').answer.recorded = some kept := by
  have hhash : r'.bodyHash sha256Hex = r.bodyHash sha256Hex := congrArg (hashBody sha256Hex) hbody
  rw [replyAfter_eq hscope' hredis', hhash]
  obtain ⟨-, hanswer, hread⟩ | ⟨-, payload, hpayload, hread⟩ :=
    readEntry_of_recorded hscope hredis hstatus hkept
  · rw [readEntry_later hmiddle (by rw [replyAfter, hread]; nofun), replyAfter, hread]
    refine ⟨nofun, ?_⟩
    rw [replyAfter, hanswer] at hkept
    exact hkept
  · rw [readEntry_later hmiddle (by rw [replyAfter, hread]; nofun), replyAfter, hread]
    refine ⟨nofun, (recorded_replay hstatus' _ payload kept).mpr ⟨(Outcome.recorded_spec hkept).1, ?_⟩⟩
    rw [hpayload]

/-- Another body is turned away. -/
theorem rejected_of_recorded {r' : Request} {before middle : List Request}
    (hredis : r.redis.available) (hredis' : r'.redis.available)
    (hmiddle : ∀ r ∈ middle, r.redis.available) (hstatus : r.res.hasStatus = true)
    (hscope : r.scope = some scope) (hscope' : r'.scope = some scope)
    (hne : r'.bodyHash sha256Hex ≠ r.bodyHash sha256Hex) {cache : Cache} {kept : Recorded}
    (hkept : (replyAfter sha256Hex cache before r).answer.recorded = some kept)
    (hserved : (replyAfter sha256Hex cache before r).served ≠ .rejected) :
    replyAfter sha256Hex cache (before ++ r :: middle) r' =
      ⟨.error keyConflict, .rejected, cacheAfter sha256Hex cache (before ++ r :: middle)⟩ := by
  obtain ⟨hrejected, -⟩ | ⟨-, payload, -, hread⟩ := readEntry_of_recorded hscope hredis hstatus hkept
  · exact absurd hrejected hserved
  have hconflict : readEntry (r'.bodyHash sha256Hex)
      ((replyAfter sha256Hex cache before r).cache scope.redisKey) = .conflict := by
    have hhit : readEntry (r.bodyHash sha256Hex)
        ((replyAfter sha256Hex cache before r).cache scope.redisKey) =
          .hit kept.statusCode payload := hread
    obtain ⟨entry, hentry, -⟩ := entry_of_hit hhit
    refine readEntry_of_ne hne.symm (Option.ne_none_iff_exists'.mpr ⟨entry, hentry⟩) ?_
    rw [hhit]
    nofun
  rw [replyAfter_eq hscope' hredis', readEntry_later hmiddle (by rw [hconflict]; nofun), hconflict]
  rfl

/-- A text that holds nothing leaves the request to the handler, as an absent one does. -/
theorem intercept_of_unreadable (hredis : r.redis.available) (hscope : r.scope = some scope)
    {cache : Cache} {text : String} (htext : Unreadable (r.bodyHash sha256Hex) text)
    (hcell : cache scope.redisKey = some text) :
    (intercept sha256Hex cache r).answer =
        (intercept sha256Hex (Function.update cache scope.redisKey none) r).answer ∧
      (intercept sha256Hex cache r).served = .byHandler ∧
      (intercept sha256Hex cache r).cache scope.redisKey =
        ((intercept sha256Hex (Function.update cache scope.redisKey none) r).cache
          scope.redisKey).or (some text) := by
  have hmiss : r.reading sha256Hex cache scope = .miss := by
    unfold Request.reading
    rw [hcell]
    exact htext.readEntry
  have hmiss' : r.reading sha256Hex (Function.update cache scope.redisKey none) scope = .miss := by
    unfold Request.reading
    rw [Function.update_self]
    rfl
  rw [intercept_of_scope hscope hredis, hmiss, intercept_of_scope hscope hredis, hmiss']
  refine ⟨rfl, rfl, ?_⟩
  show cacheTapped _ _ _ _ _ scope.redisKey = (cacheTapped _ _ _ _ _ scope.redisKey).or _
  rw [cacheTapped_eq hredis.2.2, cacheTapped_eq hredis.2.2]
  cases r.handler.recorded with
  | none =>
    show cache scope.redisKey = (Function.update cache scope.redisKey none scope.redisKey).or _
    rw [hcell, Function.update_self]
    rfl
  | some kept =>
    simp only [Option.map_some, Option.getD_some, Function.update_self]
    rfl

/-- Where an error comes from. -/
theorem intercept_error (hredis : r.redis.available) {cache : Cache} {err : HandlerError}
    (h : (intercept sha256Hex cache r).answer = .error err) :
    r.handler = .error err ∧ (intercept sha256Hex cache r).served = .byHandler ∨
    err = keyConflict ∧ (intercept sha256Hex cache r).served = .rejected ∨
    ∃ scope entry payload, r.scope = some scope ∧ entryOf (cache scope.redisKey) = some entry ∧
      parsePayload entry.responseJson = some payload ∧
      isErrorStatusCacheable entry.statusCode = true ∧
      err = .httpException entry.statusCode (.data payload) := by
  cases hscope : r.scope with
  | none =>
    rw [intercept_of_no_scope hscope] at h ⊢
    exact .inl ⟨h, rfl⟩
  | some scope =>
    rw [intercept_of_scope hscope hredis] at h ⊢
    cases hreading : r.reading sha256Hex cache scope with
    | miss =>
      rw [hreading] at h
      exact .inl ⟨h, rfl⟩
    | conflict =>
      rw [hreading] at h
      exact .inr (.inl ⟨(Outcome.error.inj h).symm, rfl⟩)
    | hit statusCode payload =>
      rw [hreading] at h
      obtain ⟨entry, hentry, hstatus, hpayload⟩ := entry_of_hit hreading
      refine .inr (.inr ⟨scope, entry, payload, rfl, hentry, hpayload, ?_⟩)
      rw [hstatus]
      have hreplay : replay r statusCode payload = .error err := h
      unfold replay at hreplay
      split_ifs at hreplay with herror
      exact ⟨herror, (Outcome.error.inj hreplay).symm⟩

theorem intercept_congr (hredis : r.redis.available) (hscope : r.scope = some scope)
    {cache cache' : Cache} (hcell : cache scope.redisKey = cache' scope.redisKey) :
    (intercept sha256Hex cache r).answer = (intercept sha256Hex cache' r).answer ∧
      (intercept sha256Hex cache r).served = (intercept sha256Hex cache' r).served := by
  have hreading : r.reading sha256Hex cache scope = r.reading sha256Hex cache' scope := by
    unfold Request.reading
    rw [hcell]
  rw [intercept_of_scope hscope hredis, intercept_of_scope hscope hredis, hreading]
  cases r.reading sha256Hex cache' scope with
  | miss => exact ⟨rfl, rfl⟩
  | conflict => exact ⟨rfl, rfl⟩
  | hit statusCode payload => exact ⟨rfl, rfl⟩

end Requests

/-! ## 4. The contract -/

/-- `{ command }`, with the key `retry-1`. -/
def commandRequest (command : String) : Request where
  idempotencyKey := .str "retry-1"
  executionId := some ⟨"0b7e6a52-6f0c-4c55-9d52-1f3f5d0f4a11", by decide⟩
  route := .interact
  body := .obj [("command", .str command)]
  res := { hasStatus := true, statusCode := some 202 }
  handler := .value (some 202) (.data ⟨.bool true, trivial, trivial⟩)
  redis := { connected := true, getFails := false, setFails := false }

/-- The digests of the two bodies below. -/
def commandDigest (text : String) : String :=
  if text = "\x7b\"command\":\"end_conversation\"\x7d" then
    "828b271cc42a8dc81cf685e5838f9b6634f3c8b9c62d1e7b8ab2180f9cb205f0"
  else "6d6bcef36ec81c9736b7934edd17d23cffb49ca05d7c9c231637824deaf2c2bc"

end Clemvion.ExternalInteraction
