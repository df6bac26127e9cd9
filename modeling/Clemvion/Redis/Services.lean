import Clemvion.Redis.Clients
import Mathlib.Data.Rat.Floor

/-!
# Services — what the services send to Redis

Rate limits, quotas, claims and locks.  Each request of a service is a program; `redis` says whether there
is a connection at all.  Every service has keys of its own.
-/

namespace Clemvion.Redis

variable {α : Type}

def countOf : Option Reply → Option Int
  | some (.integer n) => some n
  | _ => none

/-! ## 1. Rate limits -/

structure RateLimitResult where
  allowed : Bool
  retryAfterSec : Int
  deriving DecidableEq, Repr

def minuteWindowSec : Nat := 60

def hourWindowSec : Nat := 3600

def makeInteractKey (executionId : String) : String := "eia:rl:interact:" ++ executionId

def makeStatusKey (executionId : String) : String := "eia:rl:status:" ++ executionId

/-- Without an answer a request is let through. -/
def InteractionRateLimiter.consume (redis : Bool) (key : String) (limit : Nat) : Program RateLimitResult :=
  if redis then
    .call (.incrWindow key minuteWindowSec) fun reply =>
      match countOf reply with
      | none => .done ⟨true, 0⟩
      | some count =>
        if limit < count then
          .call (.ttl key) fun reply =>
            match countOf reply with
            | none => .done ⟨true, 0⟩
            | some ttl => .done ⟨false, if 0 < ttl then ttl else minuteWindowSec⟩
        else .done ⟨true, 0⟩
  else .done ⟨true, 0⟩

/-- `INCR` and `EXPIRE … NX`, sent together. -/
def incrWithWindow (key : String) (windowSec : Nat) (next : Option Int → Program α) : Program α :=
  .call (.incr key) fun count => .call (.expireNx key windowSec) fun _ => next (countOf count)

def makeChatRateLimitKey (triggerId conversationKey : String) : String :=
  "cc:rl:" ++ (triggerId ++ ":" ++ conversationKey)

/-- `Math.max(1, Math.min(600, Math.floor(limitPerMinute) || 60))` -/
def chatLimit (limitPerMinute : Rat) : Nat :=
  let floored := if ⌊limitPerMinute⌋ = 0 then 60 else ⌊limitPerMinute⌋
  (max 1 (min 600 floored)).toNat

def ChatChannelRateLimiter.consume (redis : Bool) (triggerId conversationKey : String)
    (limitPerMinute : Rat) : Program Bool :=
  if redis then
    incrWithWindow (makeChatRateLimitKey triggerId conversationKey) minuteWindowSec fun
      | none => .done true
      | some count => .done (count ≤ chatLimit limitPerMinute)
  else .done true

def makeOutboundKey (triggerId : String) : String := "eia:notif:rl:" ++ triggerId

def limitPerMinute : Nat := 60

/-- Whether there are too many notifications; they are sent all the same. -/
def OutboundNotificationRateLimiter.consume (redis : Bool) (triggerId : String) : Program Bool :=
  if redis then
    incrWithWindow (makeOutboundKey triggerId) minuteWindowSec fun
      | none => .done false
      | some count => .done (limitPerMinute < count)
  else .done false

inductive QuotaReason
  | startupRate | hourlyNew
  deriving DecidableEq, Repr

structure QuotaResult where
  allowed : Bool
  reason : Option QuotaReason
  deriving DecidableEq, Repr

def makeMinKey (ip : String) : String := "wh:rl:min:" ++ ip

def makeHourKey (ip : String) : String := "wh:rl:hour:" ++ ip

def PublicWebhookQuota.consumeStart (redis : Bool) (startupPerMinute hourlyNewMax : Nat) (ip : String) :
    Program QuotaResult :=
  if redis then
    incrWithWindow (makeMinKey ip) minuteWindowSec fun
      | none => .done ⟨true, none⟩
      | some minuteCount =>
        if startupPerMinute < minuteCount then .done ⟨false, some .startupRate⟩
        else
          incrWithWindow (makeHourKey ip) hourWindowSec fun
            | none => .done ⟨true, none⟩
            | some hourCount =>
              if hourlyNewMax < hourCount then .done ⟨false, some .hourlyNew⟩ else .done ⟨true, none⟩
  else .done ⟨true, none⟩

/-! ## 2. Claims -/

def makeChatDedupKey (triggerId idempotencyKey : String) : String :=
  "cc:dedup:" ++ (triggerId ++ ":" ++ idempotencyKey)

def chatDedupWindowSec : Nat := 30

/-- Whether the update is seen for the first time. -/
def ChatChannelDedup.claim (redis : Bool) (triggerId idempotencyKey : String) : Program Bool :=
  if redis ∧ idempotencyKey ≠ "" then
    .call (.setNx (makeChatDedupKey triggerId idempotencyKey) (.integer 1) chatDedupWindowSec) fun
      | none | some .error => .done true
      | some reply => .done (reply = .ok)
  else .done true

def ChatChannelDedup.release (redis : Bool) (triggerId idempotencyKey : String) : Program Unit :=
  if redis ∧ idempotencyKey ≠ "" then
    .call (.del (makeChatDedupKey triggerId idempotencyKey)) fun _ => .done ()
  else .done ()

def nonceTtlSec : Nat := 600

def Cafe24InstallNonceCache.buildKey (mallId timestamp hmac : String) : String :=
  "cafe24:install:nonce:" ++ (mallId ++ ":" ++ timestamp ++ ":" ++ String.ofList (hmac.toList.take 8))

def Cafe24InstallNonceCache.isReplay (redis : Bool) (mallId timestamp hmac : String) : Program Bool :=
  if redis then
    .call (.setNx (buildKey mallId timestamp hmac) (.integer 1) nonceTtlSec) fun reply =>
      .done (reply = some .nil)
  else .done false

def makeWebAuthnAuthChallengeKey (challenge : String) : String := "auth:webauthn-auth-challenge:" ++ challenge

/-- The expiry of the token by the clock of the server, and a margin for the clocks of others. -/
def challengeTtlSec (expSec nowSec : Nat) : Nat := expSec - nowSec + 60

/-- Whether the challenge is used for the first time; `none` is a failure. -/
def WebAuthnAuthChallenge.consume (redis : Bool) (challenge : String) (expSec nowSec : Nat) :
    Program (Option Bool) :=
  if redis then
    .call (.setNx (makeWebAuthnAuthChallengeKey challenge) (.integer 1) (challengeTtlSec expSec nowSec)) fun
      | none | some .error => .done none
      | some reply => .done (some (reply = .ok))
  else .done none

def installFailThreshold : Nat := 10

def installFailWindowSec : Nat := 600

def isPlausibleIp (ip : String) : Bool :=
  (1 ≤ ip.length ∧ ip.length ≤ 45) ∧
    ip.toList.all fun c =>
      c.isDigit || ('a' ≤ c && c ≤ 'f') || ('A' ≤ c && c ≤ 'F') || c == ':' || c == '.' || c == '%'

def Cafe24InstallRateLimit.buildKey (ip : String) : String := "cafe24:install:fail:" ++ ip

def Cafe24InstallRateLimit.isLockedOut (redis : Bool) (ip : String) : Program Bool :=
  if redis ∧ isPlausibleIp ip then
    .call (.get (buildKey ip)) fun
      | some (.value (.integer count)) => .done (installFailThreshold ≤ count)
      | _ => .done false
  else .done false

def Cafe24InstallRateLimit.recordFailure (redis : Bool) (ip : String) : Program Unit :=
  if redis ∧ isPlausibleIp ip then
    .call (.incrWindow (buildKey ip) installFailWindowSec) fun _ => .done ()
  else .done ()

/-! ## 3. Locks -/

def buildLockKey (triggerId conversationKey : String) : String :=
  "chat-channel-lock:" ++ (triggerId ++ ":" ++ conversationKey ++ ":formsubmit")

def lockTtlSec : Nat := 30

/-- A form is submitted under a lock, which is released whatever becomes of it. -/
def submitForm (redis : Bool) (triggerId conversationKey token : String) : Program Bool :=
  if redis then
    .call (.setNx (buildLockKey triggerId conversationKey) (.text token) lockTtlSec) fun reply =>
      if reply = some .nil then .done false
      else .call (.delIfEquals (buildLockKey triggerId conversationKey) (.text token)) fun _ => .done true
  else .done true

def recoveryLockKey : String := "exec:recover:lock"

def recoveryLockTtlSeconds : Nat := 60

/-- Here it is no lock, no recovery. -/
def recoverStuckExecutions (redis : Bool) (lockToken : String) : Program Bool :=
  if redis then
    .call (.setNx recoveryLockKey (.text lockToken) recoveryLockTtlSeconds) fun reply =>
      if reply = some .ok then .call (.delIfEquals recoveryLockKey (.text lockToken)) fun _ => .done true
      else .done false
  else .done false

/-! ## 4. Requests -/

structure Limits where
  interactPerMinute : Nat := 60
  statusPerMinute : Nat := 120
  startupPerMinute : Nat := 10
  hourlyNewMax : Nat := 20

inductive Request
  | interact (executionId : String)
  | status (executionId : String)
  | chat (triggerId conversationKey : String) (limitPerMinute : Rat)
  | outbound (triggerId : String)
  | webhook (ip : String)
  | claim (triggerId idempotencyKey : String)
  | release (triggerId idempotencyKey : String)
  | install (mallId timestamp hmac : String)
  | challenge (text : String) (expSec nowSec : Nat)
  | lockedOut (ip : String)
  | failure (ip : String)
  | submit (triggerId conversationKey token : String)
  | recover (lockToken : String)

inductive Answer
  | limited (r : RateLimitResult)
  | within (b : Bool)
  | flooding (b : Bool)
  | quota (r : QuotaResult)
  | first (b : Bool)
  | replay (b : Bool)
  | used (b : Option Bool)
  | lockedOut (b : Bool)
  | held (b : Bool)
  | sent
  deriving DecidableEq, Repr

def Request.program (limits : Limits) (redis : Bool) : Request → Program Answer
  | .interact executionId =>
    (InteractionRateLimiter.consume redis (makeInteractKey executionId) limits.interactPerMinute).map .limited
  | .status executionId =>
    (InteractionRateLimiter.consume redis (makeStatusKey executionId) limits.statusPerMinute).map .limited
  | .chat triggerId conversationKey limitPerMinute =>
    (ChatChannelRateLimiter.consume redis triggerId conversationKey limitPerMinute).map .within
  | .outbound triggerId => (OutboundNotificationRateLimiter.consume redis triggerId).map .flooding
  | .webhook ip =>
    (PublicWebhookQuota.consumeStart redis limits.startupPerMinute limits.hourlyNewMax ip).map .quota
  | .claim triggerId idempotencyKey => (ChatChannelDedup.claim redis triggerId idempotencyKey).map .first
  | .release triggerId idempotencyKey =>
    (ChatChannelDedup.release redis triggerId idempotencyKey).map fun _ => .sent
  | .install mallId timestamp hmac => (Cafe24InstallNonceCache.isReplay redis mallId timestamp hmac).map .replay
  | .challenge text expSec nowSec =>
    (WebAuthnAuthChallenge.consume redis text expSec nowSec).map .used
  | .lockedOut ip => (Cafe24InstallRateLimit.isLockedOut redis ip).map .lockedOut
  | .failure ip => (Cafe24InstallRateLimit.recordFailure redis ip).map fun _ => .sent
  | .submit triggerId conversationKey token => (submitForm redis triggerId conversationKey token).map .held
  | .recover lockToken => (recoverStuckExecutions redis lockToken).map .held

/-- The commands that a request may send. -/
def Request.commands : Request → List Command
  | .interact executionId =>
    [.incrWindow (makeInteractKey executionId) minuteWindowSec, .ttl (makeInteractKey executionId)]
  | .status executionId =>
    [.incrWindow (makeStatusKey executionId) minuteWindowSec, .ttl (makeStatusKey executionId)]
  | .chat triggerId conversationKey _ =>
    [.incr (makeChatRateLimitKey triggerId conversationKey),
      .expireNx (makeChatRateLimitKey triggerId conversationKey) minuteWindowSec]
  | .outbound triggerId =>
    [.incr (makeOutboundKey triggerId), .expireNx (makeOutboundKey triggerId) minuteWindowSec]
  | .webhook ip =>
    [.incr (makeMinKey ip), .expireNx (makeMinKey ip) minuteWindowSec, .incr (makeHourKey ip),
      .expireNx (makeHourKey ip) hourWindowSec]
  | .claim triggerId idempotencyKey =>
    [.setNx (makeChatDedupKey triggerId idempotencyKey) (.integer 1) chatDedupWindowSec]
  | .release triggerId idempotencyKey => [.del (makeChatDedupKey triggerId idempotencyKey)]
  | .install mallId timestamp hmac =>
    [.setNx (Cafe24InstallNonceCache.buildKey mallId timestamp hmac) (.integer 1) nonceTtlSec]
  | .challenge text expSec nowSec =>
    [.setNx (makeWebAuthnAuthChallengeKey text) (.integer 1) (challengeTtlSec expSec nowSec)]
  | .lockedOut ip => [.get (Cafe24InstallRateLimit.buildKey ip)]
  | .failure ip => [.incrWindow (Cafe24InstallRateLimit.buildKey ip) installFailWindowSec]
  | .submit triggerId conversationKey token =>
    [.setNx (buildLockKey triggerId conversationKey) (.text token) lockTtlSec,
      .delIfEquals (buildLockKey triggerId conversationKey) (.text token)]
  | .recover lockToken =>
    [.setNx recoveryLockKey (.text lockToken) recoveryLockTtlSeconds,
      .delIfEquals recoveryLockKey (.text lockToken)]

variable {limits : Limits} {redis : Bool}

theorem sends_incrWithWindow {P : Command → Prop} {key : String} {windowSec : Nat}
    {next : Option Int → Program α} (hincr : P (.incr key)) (hexpire : P (.expireNx key windowSec))
    (hnext : ∀ count, (next count).Sends P) : (incrWithWindow key windowSec next).Sends P :=
  ⟨hincr, fun count => ⟨hexpire, fun _ => hnext (countOf count)⟩⟩

theorem Program.Sends.map {β : Type} {P : Command → Prop} {p : Program α} (h : p.Sends P) (f : α → β) :
    (p.map f).Sends P := by
  induction p with
  | done a => exact trivial
  | call c next ih => exact ⟨h.1, fun r => ih r (h.2 r)⟩

theorem Program.Never.map {β : Type} {good : β → Prop} {p : Program α} {f : α → β}
    (h : p.Never fun a => good (f a)) : (p.map f).Never good := by
  induction p with
  | done a => exact h
  | call c next ih => exact fun r hmay => ih (some r) (h r hmay)

theorem Program.Only.map {β : Type} {Q : Command → Reply → Prop} {good : β → Prop} {p : Program α}
    {f : α → β} (h : p.Only Q fun a => good (f a)) : (p.map f).Only Q good := by
  induction p with
  | done a => exact trivial
  | call c next ih =>
    intro r hmay
    obtain ⟨hhere, hlater⟩ := h r hmay
    exact ⟨hhere.imp_left Program.Never.map, ih (some r) hlater⟩

theorem sends_request (limits : Limits) (redis : Bool) (r : Request) :
    (r.program limits redis).Sends (· ∈ r.commands) := by
  have hconsume : ∀ key limit, (InteractionRateLimiter.consume redis key limit).Sends
      (· ∈ [Command.incrWindow key minuteWindowSec, .ttl key]) := by
    intro key limit
    unfold InteractionRateLimiter.consume
    split
    · refine ⟨List.mem_cons_self, fun reply => ?_⟩
      dsimp only
      split
      · exact trivial
      · split
        · refine ⟨List.mem_cons_of_mem _ List.mem_cons_self, fun reply => ?_⟩
          dsimp only
          split <;> exact trivial
        · exact trivial
    · exact trivial
  cases r with
  | interact executionId => exact (hconsume _ _).map _
  | status executionId => exact (hconsume _ _).map _
  | chat triggerId conversationKey limitPerMinute =>
    refine Program.Sends.map ?_ _
    unfold ChatChannelRateLimiter.consume
    split
    · refine sends_incrWithWindow (by simp [Request.commands]) (by simp [Request.commands]) fun count => ?_
      cases count <;> exact trivial
    · exact trivial
  | outbound triggerId =>
    refine Program.Sends.map ?_ _
    unfold OutboundNotificationRateLimiter.consume
    split
    · refine sends_incrWithWindow (by simp [Request.commands]) (by simp [Request.commands]) fun count => ?_
      cases count <;> exact trivial
    · exact trivial
  | webhook ip =>
    refine Program.Sends.map ?_ _
    unfold PublicWebhookQuota.consumeStart
    split
    · refine sends_incrWithWindow (by simp [Request.commands]) (by simp [Request.commands]) fun count => ?_
      cases count with
      | none => exact trivial
      | some minuteCount =>
        show Program.Sends _ (if _ then _ else _)
        split
        · exact trivial
        · refine sends_incrWithWindow (by simp [Request.commands]) (by simp [Request.commands]) fun count => ?_
          cases count with
          | none => exact trivial
          | some hourCount =>
            show Program.Sends _ (if _ then _ else _)
            split <;> exact trivial
    · exact trivial
  | claim triggerId idempotencyKey =>
    refine Program.Sends.map ?_ _
    unfold ChatChannelDedup.claim
    split
    · refine ⟨List.mem_cons_self, fun reply => ?_⟩
      dsimp only
      split <;> exact trivial
    · exact trivial
  | release triggerId idempotencyKey =>
    refine Program.Sends.map ?_ _
    unfold ChatChannelDedup.release
    split
    · exact ⟨List.mem_cons_self, fun _ => trivial⟩
    · exact trivial
  | install mallId timestamp hmac =>
    refine Program.Sends.map ?_ _
    unfold Cafe24InstallNonceCache.isReplay
    split
    · exact ⟨List.mem_cons_self, fun _ => trivial⟩
    · exact trivial
  | challenge text expSec nowSec =>
    refine Program.Sends.map ?_ _
    unfold WebAuthnAuthChallenge.consume
    split
    · refine ⟨List.mem_cons_self, fun reply => ?_⟩
      dsimp only
      split <;> exact trivial
    · exact trivial
  | lockedOut ip =>
    refine Program.Sends.map ?_ _
    unfold Cafe24InstallRateLimit.isLockedOut
    split
    · refine ⟨List.mem_cons_self, fun reply => ?_⟩
      dsimp only
      split <;> exact trivial
    · exact trivial
  | failure ip =>
    refine Program.Sends.map ?_ _
    unfold Cafe24InstallRateLimit.recordFailure
    split
    · exact ⟨List.mem_cons_self, fun _ => trivial⟩
    · exact trivial
  | submit triggerId conversationKey token =>
    refine Program.Sends.map ?_ _
    unfold submitForm
    split
    · refine ⟨List.mem_cons_self, fun reply => ?_⟩
      dsimp only
      split
      · exact trivial
      · exact ⟨by simp [Request.commands], fun _ => trivial⟩
    · exact trivial
  | recover lockToken =>
    refine Program.Sends.map ?_ _
    unfold recoverStuckExecutions
    split
    · refine ⟨List.mem_cons_self, fun reply => ?_⟩
      dsimp only
      split
      · exact ⟨by simp [Request.commands], fun _ => trivial⟩
      · exact trivial
    · exact trivial

/-! ## 5. Keys -/

/-- What a key is for. -/
inductive Space
  | interact | status | chat | outbound | minute | hour | dedup | nonce | challenge | fail | lock | recovery
  deriving DecidableEq, Repr

def Space.all : List (Space × String) :=
  [(.interact, "eia:rl:interact:"), (.status, "eia:rl:status:"), (.chat, "cc:rl:"),
    (.outbound, "eia:notif:rl:"), (.minute, "wh:rl:min:"), (.hour, "wh:rl:hour:"), (.dedup, "cc:dedup:"),
    (.nonce, "cafe24:install:nonce:"), (.challenge, "auth:webauthn-auth-challenge:"),
    (.fail, "cafe24:install:fail:"), (.lock, "chat-channel-lock:"), (.recovery, "exec:recover:lock")]

/-- A key tells by its beginning what it is for. -/
def spaceOf (key : String) : Option Space :=
  (Space.all.find? fun space => space.2.toList.isPrefixOf key.toList).map Prod.fst

def Request.spaces : Request → List Space
  | .interact _ => [.interact]
  | .status _ => [.status]
  | .chat _ _ _ => [.chat]
  | .outbound _ => [.outbound]
  | .webhook _ => [.minute, .hour]
  | .claim _ _ | .release _ _ => [.dedup]
  | .install _ _ _ => [.nonce]
  | .challenge _ _ _ => [.challenge]
  | .lockedOut _ | .failure _ => [.fail]
  | .submit _ _ _ => [.lock]
  | .recover _ => [.recovery]

/-- No beginning is the beginning of another. -/
theorem Space.apart : ∀ a ∈ Space.all, ∀ b ∈ Space.all, a.2.toList.isPrefixOf b.2.toList → a = b := by
  decide

theorem spaceOf_append {space : Space} {start : String} (h : (space, start) ∈ Space.all) (rest : String) :
    spaceOf (start ++ rest) = some space := by
  unfold spaceOf
  rw [String.toList_append]
  cases hfind : Space.all.find? fun space => space.2.toList.isPrefixOf (start.toList ++ rest.toList) with
  | none =>
    have hnot := List.find?_eq_none.mp hfind _ h
    exact absurd (List.isPrefixOf_iff_prefix.mpr (List.prefix_append _ _)) hnot
  | some found =>
    have hholds : found.2.toList.isPrefixOf (start.toList ++ rest.toList) := by
      simpa using List.find?_some hfind
    have hfound : found.2.toList <+: start.toList ++ rest.toList := List.isPrefixOf_iff_prefix.mp hholds
    -- of two beginnings of one key, one is the beginning of the other
    have hsame : found = (space, start) := by
      obtain hle | hle := List.prefix_or_prefix_of_prefix hfound (List.prefix_append _ rest.toList)
      · exact Space.apart _ (List.mem_of_find?_eq_some hfind) _ h (List.isPrefixOf_iff_prefix.mpr hle)
      · exact (Space.apart _ h _ (List.mem_of_find?_eq_some hfind) (List.isPrefixOf_iff_prefix.mpr hle)).symm
    rw [hsame]
    rfl

theorem spaceOf_interact (executionId : String) : spaceOf (makeInteractKey executionId) = some .interact :=
  spaceOf_append (by simp [Space.all]) executionId

theorem spaceOf_status (executionId : String) : spaceOf (makeStatusKey executionId) = some .status :=
  spaceOf_append (by simp [Space.all]) executionId

theorem spaceOf_chat (triggerId conversationKey : String) :
    spaceOf (makeChatRateLimitKey triggerId conversationKey) = some .chat :=
  spaceOf_append (by simp [Space.all]) _

theorem spaceOf_outbound (triggerId : String) : spaceOf (makeOutboundKey triggerId) = some .outbound :=
  spaceOf_append (by simp [Space.all]) triggerId

theorem spaceOf_minute (ip : String) : spaceOf (makeMinKey ip) = some .minute :=
  spaceOf_append (by simp [Space.all]) ip

theorem spaceOf_hour (ip : String) : spaceOf (makeHourKey ip) = some .hour :=
  spaceOf_append (by simp [Space.all]) ip

theorem spaceOf_dedup (triggerId idempotencyKey : String) :
    spaceOf (makeChatDedupKey triggerId idempotencyKey) = some .dedup :=
  spaceOf_append (by simp [Space.all]) _

theorem spaceOf_nonce (mallId timestamp hmac : String) :
    spaceOf (Cafe24InstallNonceCache.buildKey mallId timestamp hmac) = some .nonce :=
  spaceOf_append (by simp [Space.all]) _

theorem spaceOf_challenge (text : String) :
    spaceOf (makeWebAuthnAuthChallengeKey text) = some .challenge :=
  spaceOf_append (by simp [Space.all]) text

theorem spaceOf_fail (ip : String) : spaceOf (Cafe24InstallRateLimit.buildKey ip) = some .fail :=
  spaceOf_append (by simp [Space.all]) ip

theorem spaceOf_lock (triggerId conversationKey : String) :
    spaceOf (buildLockKey triggerId conversationKey) = some .lock :=
  spaceOf_append (by simp [Space.all]) _

theorem spaceOf_recovery : spaceOf recoveryLockKey = some .recovery := by
  have hspace := @spaceOf_append .recovery recoveryLockKey
    (by simp [Space.all, recoveryLockKey]) ""
  rwa [String.append_empty] at hspace

theorem spaceOf_command (r : Request) :
    ∀ c ∈ r.commands, ∃ space ∈ r.spaces, spaceOf c.key = some space := by
  cases r <;>
    simp [Request.commands, Request.spaces, Command.key, spaceOf_interact, spaceOf_status, spaceOf_chat,
      spaceOf_outbound, spaceOf_minute, spaceOf_hour, spaceOf_dedup, spaceOf_nonce, spaceOf_challenge,
      spaceOf_fail, spaceOf_lock, spaceOf_recovery]

/-- Requests that have a key in common have a space in common. -/
theorem mem_spaces {r : Request} {c : Command} (hc : c ∈ r.commands) {key : String} (hkey : c.key = key)
    {space : Space} (hspace : spaceOf key = some space) : space ∈ r.spaces := by
  obtain ⟨space', hmem, hspace'⟩ := spaceOf_command r c hc
  rw [hkey, hspace] at hspace'
  exact Option.some.inj hspace' ▸ hmem

end Clemvion.Redis
