import Clemvion.Js.Distinct
import Clemvion.Js.Trimming
import Clemvion.Triggers.RawConfig
import Clemvion.Triggers.TriggerConfig

/-!
# EiaValues — the two values of a trigger that the server makes

A trigger that takes part in the external interaction API has a token of its own, and a secret that
signs its notifications.  Both are decided under the trigger's config lock from the row that is read
there: on a PATCH, when the token is revoked, when the secret is rotated, and when a rotated secret
is promoted after its grace.
-/

namespace Clemvion.Triggers

open Js Library

/-- A value that is an object and no array. -/
def isPlainRecord : Value → Bool
  | .obj _ => true
  | _ => false

/-! ## 1. Secret references -/

/-- `SECRET_URI_REGEX.test(ref)`: `secret://scope/resourceId/name`. -/
def isSecretUri (ref : String) : Bool :=
  let text := ref.toList
  let lower := fun c : Char => 'a' ≤ c ∧ c ≤ 'z'
  let digit := fun c : Char => '0' ≤ c ∧ c ≤ '9'
  "secret://".toList.isPrefixOf text &&
    match (text.drop 9).splitOn '/' with
    | [c :: scope, _ :: _, d :: name] =>
      decide (lower c) && scope.all (fun c => lower c ∨ digit c ∨ c = '-') &&
        (decide (lower d ∨ digit d) && name.all fun c => lower c ∨ digit c ∨ c = '.' ∨ c = '-')
    | _ => false

/-- `buildSecretRef({ scope: 'triggers', resourceId: triggerId, name: 'notification-signing' })`; `none`
where it throws. -/
def notificationSigningSecretRef (triggerId : String) : Option String :=
  let ref := "secret://triggers/" ++ triggerId ++ "/notification-signing"
  if isSecretUri ref then some ref else none

def isSecretRef : Value → Bool
  | .str ref => isSecretUri ref
  | _ => false

inductive RotateError
  | blank | workspaceMismatch
  deriving DecidableEq

/-- `SecretResolverService.rotate` for a well-formed reference, under which `existing` is stored. -/
def rotate (existing : Option SecretStore) (workspaceId newPlaintext : String) :
    Except RotateError SecretStore :=
  if trimText newPlaintext.toList = [] then .error .blank
  else
    match existing with
    | some row =>
      if row.workspaceId ≠ workspaceId then .error .workspaceMismatch
      else .ok { row with plaintext := newPlaintext }
    | none => .ok ⟨workspaceId, newPlaintext⟩

/-! ## 2. The signing secret of the notifications -/

inductive StoredSigningSecret
  | ref (secretRef : String) | legacy (plaintext : String) | none

def isUsableLegacyPlaintext : Value → Bool
  | .str s => trimText s.toList ≠ []
  | _ => false

def readStoredSigningSecret (signing : Value) : StoredSigningSecret :=
  let fields := if signing.isObject then signing else .obj []
  match fields.field "secretRef", fields.field "secret" with
  | .str secretRef, secret =>
    if isSecretUri secretRef then .ref secretRef
    else
      match secret with
      | .str plaintext => if isUsableLegacyPlaintext (.str plaintext) then .legacy plaintext else .none
      | _ => .none
  | _, .str plaintext => if isUsableLegacyPlaintext (.str plaintext) then .legacy plaintext else .none
  | _, _ => .none

inductive NotificationSigningDecision
  | rederive | migrate (plaintext : String) | issue

def decideNotificationSigning (storedNotification : Value) : NotificationSigningDecision :=
  let signing := if storedNotification.isObject then storedNotification.field "signing" else .undefined
  match readStoredSigningSecret signing with
  | .ref _ => .rederive
  | .legacy plaintext => .migrate plaintext
  | .none => .issue

def signingWithRef (signing : Value) (secretRef : String) : List (String × Value) :=
  let next := if isPlainRecord signing then Value.spread [] signing else []
  Value.setKey (next.filter fun field => field.1 ≠ "secret") "secretRef" (.str secretRef)

def notificationWithSigningRef (notification : Value) (secretRef : String) : List (String × Value) :=
  let base := if isPlainRecord notification then notification else .obj []
  Value.setKey (Value.spread [] base) "signing" (.obj (signingWithRef (base.field "signing") secretRef))

/-- A config to be stored, and what becomes of the stored secret. -/
structure SettledNotificationSigning where
  config : List (String × Value)
  signingSecret : Option SecretStore
  issuedSecret : Option String

/-- `NotificationSigningSecretService.settle`; `newSecret` is the secret it would make, and `none` stands
for an exception. -/
def settle (triggerId : String) (fresh : Trigger) (nextConfig : List (String × Value))
    (newSecret : String) : Option SettledNotificationSigning := do
  let ref ← notificationSigningSecretRef triggerId
  let config := Value.setKey (Value.spread [] (.obj nextConfig)) "notification"
    (.obj (notificationWithSigningRef ((Value.obj nextConfig).field "notification") ref))
  match decideNotificationSigning (fresh.config.field "notification") with
  | .rederive => some ⟨config, fresh.signingSecret, none⟩
  | .migrate plaintext =>
    let stored ← (rotate fresh.signingSecret fresh.workspaceId plaintext).toOption
    some ⟨config, some stored, none⟩
  | .issue =>
    let stored ← (rotate fresh.signingSecret fresh.workspaceId newSecret).toOption
    some ⟨config, some stored, some newSecret⟩

/-- `wsk_` and 64 hexadecimal digits. -/
def newNotificationSigningSecret (hex : String) : String := "wsk_" ++ hex

def rotationGraceMs : Int := 24 * 60 * 60 * 1000

/-- `writeRotation`: the new secret waits in `notificationSecretV2`. -/
def writeRotation (triggerId workspaceId hex : String) (rotatedAt : Int) : Job String Trigger where
  row := triggerId
  merge := fun _ fresh =>
    if fresh.workspaceId ≠ workspaceId then none
    else
      some { fresh with
        notificationSecretV2 := some (newNotificationSigningSecret hex)
        notificationRotatedAt := some rotatedAt }

/-- What `promoteOneLocked` writes; `none` where it writes nothing. -/
def promoteOneLocked (triggerId pickedV2 : String) (fresh : Trigger) : Option Trigger :=
  if fresh.notificationSecretV2 ≠ some pickedV2 then none
  else
    let notificationCfg := fresh.config.field "notification"
    if !notificationCfg.isObject then
      some { fresh with notificationSecretV2 := none, notificationRotatedAt := none }
    else do
      let ref ← notificationSigningSecretRef triggerId
      let stored ← (rotate fresh.signingSecret fresh.workspaceId pickedV2).toOption
      let config := Value.setKey (Value.spread [] fresh.config) "notification"
        (.obj (notificationWithSigningRef notificationCfg ref))
      some { fresh with
        config := Value.jsonRoundTrip (.obj config)
        notificationSecretV2 := none
        notificationRotatedAt := none
        signingSecret := some stored }

/-- One trigger of `promoteRotated`: it is picked without the lock, and promoted under it. -/
def promoteRotated (triggerId : String) (nowMs : Int) : Job String Trigger where
  row := triggerId
  merge := fun picked fresh =>
    match picked.notificationSecretV2, picked.notificationRotatedAt with
    | some pickedV2, some rotatedAt =>
      if rotatedAt ≤ nowMs - rotationGraceMs ∧ pickedV2 ≠ "" then
        promoteOneLocked triggerId pickedV2 fresh
      else none
    | _, _ => none

/-! ## 3. The token of the trigger -/

def isPerTriggerInteraction (interaction : Value) : Bool :=
  interaction.isObject && interaction.field "tokenStrategy" == .str "per_trigger"

/-- `fresh.config?.interaction ?? {}` and its `triggerToken`. -/
def storedTriggerToken (config : Value) : Value := (config.field "interaction").field "triggerToken"

def hasStoredToken : Value → Bool
  | .str token => token ≠ ""
  | _ => false

structure SettledTriggerToken where
  config : List (String × Value)
  issuedToken : Option String
  closeStreams : Bool

def settleTriggerToken (fresh : Trigger) (nextConfig : List (String × Value)) (newToken : String) :
    SettledTriggerToken :=
  let storedToken := storedTriggerToken fresh.config
  let requested := (Value.obj nextConfig).field "interaction"
  if !isPlainRecord requested then ⟨nextConfig, none, hasStoredToken storedToken⟩
  else
    let nextInteraction := Value.spread [] requested
    let withInteraction := fun interaction : List (String × Value) =>
      Value.setKey nextConfig "interaction" (.obj interaction)
    let perTrigger := (Value.obj nextInteraction).field "tokenStrategy" == .str "per_trigger"
    let enabled := (Value.obj nextInteraction).field "enabled" == .bool true
    if perTrigger && hasStoredToken storedToken then
      ⟨withInteraction (Value.setKey nextInteraction "triggerToken" storedToken), none, !enabled⟩
    else if perTrigger && enabled then
      ⟨withInteraction (Value.setKey nextInteraction "triggerToken" (.str newToken)), some newToken, false⟩
    else
      ⟨withInteraction (nextInteraction.filter fun field => field.1 ≠ "triggerToken"), none,
        hasStoredToken storedToken⟩

/-- `revokePerTriggerToken`: the strategy is looked at before the lock and again under it. -/
def revokePerTriggerToken (triggerId workspaceId newToken : String) : Job String Trigger where
  row := triggerId
  merge := fun trigger fresh =>
    let interactionCfg := trigger.config.field "interaction"
    if trigger.workspaceId ≠ workspaceId then none
    else if !isPerTriggerInteraction interactionCfg then none
    else
      let updated := Value.setKey (Value.spread [] interactionCfg) "triggerToken" (.str newToken)
      (rewriteTriggerConfigLocked
        { triggerId
          merge := fun _ freshConfig _ =>
            if !isPerTriggerInteraction (freshConfig.field "interaction") then none
            else
              some (mergeIntoFreshSubKey freshConfig "interaction" [("triggerToken", .str newToken)]
                updated)
          columns := [] }).merge trigger fresh

/-! ## 4. PATCH -/

def stripInlineAuthKeys (config : List (String × Value)) : List (String × Value) :=
  config.filter fun field =>
    field.1 ∉ ["authType", "secret", "bearerToken", "hmacHeader", "hmacAlgorithm"]

/-- The patch wins key by key, and a `null` takes its key out. -/
def mergeRawConfig (base : List (String × Value)) (patch : Value) : List (String × Value) :=
  match patch with
  | .obj fields =>
    Value.spread [] (.obj ((base.filter fun field => !(fields.lookup field.1).isSome) ++
      fields.filter fun field => field.2 ≠ .null))
  | _ => base

def mergeExternalConfig (base : List (String × Value))
    (notification interaction chatChannel : Option Value) : List (String × Value) :=
  let set := fun (next : List (String × Value)) (key : String) (v : Option Value) =>
    match v with
    | some v => Value.setKey next key v
    | none => next
  set (set (set base "notification" notification) "interaction" interaction) "chatChannel" chatChannel

/-- The body of a PATCH: `none` for a field that was not sent, and the values the server would make. -/
structure UpdateTriggerDto where
  config : Value
  notification : Option Value
  interaction : Option Value
  /-- After the plaintexts have been taken out. -/
  chatChannel : Option Value
  columns : List (String × Value)
  newToken : String
  newSecret : String

/-- `applyServerManagedEiaValues`; `none` for an exception. -/
def applyServerManagedEiaValues (triggerId : String) (target : Trigger)
    (config : List (String × Value)) (dto : UpdateTriggerDto) :
    Option (List (String × Value) × Option SecretStore) :=
  let config :=
    if dto.interaction.isSome then (settleTriggerToken target config dto.newToken).config else config
  if dto.notification.isSome && isPlainRecord ((Value.obj config).field "notification") then
    (settle triggerId target config dto.newSecret).map fun settled =>
      (settled.config, settled.signingSecret)
  else some (config, target.signingSecret)

/-- `fresh?.config ?? trigger.config ?? {}`. -/
def currentConfig (trigger fresh : Trigger) : Value :=
  match fresh.config with
  | .null | .undefined => trigger.freshConfig
  | config => config

/-- `TriggersService.update`, from its checks of the raw config to the end of its transaction. -/
def update (triggerId workspaceId : String) (dto : UpdateTriggerDto) : Job String Trigger where
  row := triggerId
  merge := fun trigger fresh =>
    match assertRawConfigAccepted dto.config with
    | .error _ => none
    | .ok _ =>
      if trigger.workspaceId ≠ workspaceId ∨ fresh.workspaceId ≠ workspaceId then none
      else
        let baseConfig := stripInlineAuthKeys
          (mergeRawConfig (Value.ownFields (currentConfig trigger fresh)) dto.config)
        let mergedConfig := mergeExternalConfig baseConfig dto.notification dto.interaction dto.chatChannel
        (applyServerManagedEiaValues triggerId fresh mergedConfig dto).map fun managed =>
          { fresh.update dto.columns (.obj managed.1) with signingSecret := managed.2 }

/-- The writes of the channel binder and of `rotateBotToken`: `chatChannel` is made anew from the fresh
config, and the rest of it is kept. -/
def rewriteChatChannel (triggerId : String) (channel : (trigger : Trigger) → (freshConfig : Value) → Value)
    (columns : List (String × Value)) : Job String Trigger :=
  rewriteTriggerConfigLocked
    { triggerId
      merge := fun trigger freshConfig _ =>
        some (.obj (Value.setKey (Value.spread [] freshConfig) "chatChannel" (channel trigger freshConfig)))
      columns }

/-- A request that writes under the config lock of a trigger. -/
inductive TriggerJob
  | update (triggerId workspaceId : String) (dto : UpdateTriggerDto)
  | revokePerTriggerToken (triggerId workspaceId newToken : String)
  | writeRotation (triggerId workspaceId hex : String) (rotatedAt : Int)
  | promoteRotated (triggerId : String) (nowMs : Int)
  | rewriteChatChannel (triggerId : String)
      (channel : (trigger : Trigger) → (freshConfig : Value) → Value) (columns : List (String × Value))

def TriggerJob.job : TriggerJob → Job String Trigger
  | .update triggerId workspaceId dto => Triggers.update triggerId workspaceId dto
  | .revokePerTriggerToken triggerId workspaceId newToken =>
    Triggers.revokePerTriggerToken triggerId workspaceId newToken
  | .writeRotation triggerId workspaceId hex rotatedAt =>
    Triggers.writeRotation triggerId workspaceId hex rotatedAt
  | .promoteRotated triggerId nowMs => Triggers.promoteRotated triggerId nowMs
  | .rewriteChatChannel triggerId channel columns =>
    Triggers.rewriteChatChannel triggerId channel columns

/-- The objects that come with the request have distinct keys, as all objects do. -/
def TriggerJob.Distinct : TriggerJob → Prop
  | .update _ _ dto => dto.config.distinctKeys = true ∧
      (∀ v ∈ dto.notification, v.distinctKeys = true) ∧ (∀ v ∈ dto.interaction, v.distinctKeys = true) ∧
      ∀ v ∈ dto.chatChannel, v.distinctKeys = true
  | .rewriteChatChannel _ channel _ =>
    ∀ trigger freshConfig, freshConfig.distinctKeys = true →
      (channel trigger freshConfig).distinctKeys = true
  | _ => True

/-- The config is an object, as the column has it. -/
structure ObjectConfig (t : Trigger) : Prop where
  held : ∃ fields, t.config = .obj fields ∧ Value.DistinctObject fields

/-! ## 5. What is stored -/

variable {key : String} {v : Value} {fields : List (String × Value)} {t fresh trigger : Trigger}
  {columns : List (String × Value)}

theorem ObjectConfig.freshConfig_eq (h : ObjectConfig t) : t.freshConfig = t.config := by
  obtain ⟨fields, hconfig, -⟩ := h.held
  unfold Trigger.freshConfig
  rw [hconfig]

theorem ObjectConfig.currentConfig_eq (h : ObjectConfig fresh) :
    currentConfig trigger fresh = fresh.config := by
  obtain ⟨fields, hconfig, -⟩ := h.held
  unfold currentConfig
  rw [hconfig]

theorem ObjectConfig.update (fresh : Trigger) (columns : List (String × Value))
    (h : Value.DistinctObject fields) : ObjectConfig (fresh.update columns (.obj fields)) :=
  ⟨_, rfl, Value.distinctKeys_jsonRoundTrip (.obj fields) h⟩

/-- A field read from a JSON column, of a value whose objects have distinct keys. -/
theorem field_stored (h : v.distinctKeys = true) (key : String) :
    (Value.jsonRoundTrip v).field key = Value.jsonRoundTrip (v.field key) := by
  cases v with
  | obj fields => exact Value.field_jsonRoundTrip (Value.DistinctObject.nodup h)
  | num n => cases n <;> rfl
  | _ => rfl

theorem jsonRoundTrip_eq_str_iff {s : String} : Value.jsonRoundTrip v = .str s ↔ v = .str s := by
  cases v with
  | num n => cases n <;> simp [Value.jsonRoundTrip]
  | _ => simp [Value.jsonRoundTrip]

theorem isPlainRecord_jsonRoundTrip : isPlainRecord (Value.jsonRoundTrip v) = isPlainRecord v := by
  cases v with
  | num n => cases n <;> rfl
  | _ => rfl

theorem field_spread (h : Value.DistinctObject fields) :
    (Value.obj (Value.spread [] (.obj fields))).field key = (Value.obj fields).field key := by
  show ((Value.spread [] (.obj fields)).lookup key).getD .undefined = _
  rw [Value.lookup_spread h.nodup, List.lookup_nil, Option.or_none]
  rfl

theorem distinct_spread_nil (h : v.distinctKeys = true) : Value.DistinctObject (Value.spread [] v) :=
  Value.DistinctObject.nil.spread (Value.distinctKeys_ownFields h)

/-! ## 6. What a PATCH merges -/

theorem lookup_typed_of_accepted {raw : Value} (h : assertRawConfigAccepted raw = .ok ())
    (hkey : key ∈ rawConfigTypedKeys) {patch : List (String × Value)} (hraw : raw = .obj patch) :
    patch.lookup key = none := by
  subst hraw
  exact ((assertRawConfigAccepted_iff patch).1.mp h).1 key hkey

/-- The typed settings come through the raw merge, which keeps the keys distinct. -/
theorem mergeRawConfig_spec {raw : Value} (hbase : Value.DistinctObject fields)
    (hraw : raw.distinctKeys = true) (haccepted : assertRawConfigAccepted raw = .ok ()) :
    Value.DistinctObject (mergeRawConfig fields raw) ∧
      ∀ key ∈ rawConfigTypedKeys,
        (Value.obj (mergeRawConfig fields raw)).field key = (Value.obj fields).field key := by
  unfold mergeRawConfig
  split
  case h_2 => exact ⟨hbase, fun _ _ => rfl⟩
  case h_1 patch =>
    -- the keys of the patch are taken out of the base before it is appended
    have hentries : Value.DistinctObject ((fields.filter fun field => !(patch.lookup field.1).isSome) ++
        patch.filter fun field => field.2 ≠ .null) := by
      refine Value.distinctObject_iff.mpr ⟨?_, fun field hmem => ?_⟩
      · rw [List.map_append]
        refine List.nodup_append.mpr ⟨Value.nodup_filter_keys hbase.nodup _,
          Value.nodup_filter_keys (Value.DistinctObject.nodup hraw) _, ?_⟩
        rintro k hk k' hk' rfl
        obtain ⟨old, hold, rfl⟩ := List.mem_map.mp hk
        obtain ⟨new, hnew, heq⟩ := List.mem_map.mp hk'
        have hpresent := Value.lookup_eq_some_of_mem (Value.DistinctObject.nodup hraw)
          (List.mem_of_mem_filter hnew)
        have hout := (List.mem_filter.mp hold).2
        rw [← heq, hpresent] at hout
        cases hout
      · obtain hold | hnew := List.mem_append.mp hmem
        · exact hbase.of_mem (List.mem_of_mem_filter hold)
        · exact Value.DistinctObject.of_mem hraw (List.mem_of_mem_filter hnew)
    refine ⟨distinct_spread_nil hentries, fun key hkey => ?_⟩
    have habsent := lookup_typed_of_accepted haccepted hkey rfl
    rw [field_spread hentries]
    have hnew : (patch.filter fun field => field.2 ≠ .null).lookup key = none := by
      rw [List.lookup_eq_none_iff]
      intro field hmem
      exact List.lookup_eq_none_iff.mp habsent field (List.mem_of_mem_filter hmem)
    show (List.lookup key _).getD _ = (List.lookup key _).getD _
    rw [List.lookup_append, hnew, Option.or_none,
      Value.lookup_filter_keys fun k => !(patch.lookup k).isSome, habsent]
    rfl

theorem stripInlineAuthKeys_field
    (hkey : key ∉ ["authType", "secret", "bearerToken", "hmacHeader", "hmacAlgorithm"]) :
    (Value.obj (stripInlineAuthKeys fields)).field key = (Value.obj fields).field key := by
  unfold stripInlineAuthKeys
  show (List.lookup key _).getD _ = _
  rw [Value.lookup_filter_keys fun k => decide (k ∉ ["authType", "secret", "bearerToken", "hmacHeader",
    "hmacAlgorithm"]), if_pos (by simpa using hkey)]
  rfl

variable {notification interaction chatChannel : Option Value}

theorem mergeExternalConfig_distinct (h : Value.DistinctObject fields)
    (hnotification : ∀ v ∈ notification, v.distinctKeys = true)
    (hinteraction : ∀ v ∈ interaction, v.distinctKeys = true)
    (hchatChannel : ∀ v ∈ chatChannel, v.distinctKeys = true) :
    Value.DistinctObject (mergeExternalConfig fields notification interaction chatChannel) := by
  have hset : ∀ {next : List (String × Value)} {key : String} {v : Option Value},
      Value.DistinctObject next → (∀ w ∈ v, w.distinctKeys = true) →
        Value.DistinctObject (match v with | some v => Value.setKey next key v | none => next) := by
    intro next key v hnext hv
    cases v with
    | none => exact hnext
    | some v => exact hnext.setKey (hv v rfl)
  exact hset (hset (hset h hnotification) hinteraction) hchatChannel

theorem mergeExternalConfig_interaction :
    (Value.obj (mergeExternalConfig fields notification interaction chatChannel)).field "interaction" =
      interaction.getD ((Value.obj fields).field "interaction") := by
  unfold mergeExternalConfig
  cases chatChannel <;> cases interaction <;> cases notification <;>
    simp [Value.field_setKey]

theorem mergeExternalConfig_notification :
    (Value.obj (mergeExternalConfig fields notification interaction chatChannel)).field "notification" =
      notification.getD ((Value.obj fields).field "notification") := by
  unfold mergeExternalConfig
  cases chatChannel <;> cases interaction <;> cases notification <;>
    simp [Value.field_setKey]

/-! ## 7. What becomes of the token -/

/-- A token is held by an interaction of the `per_trigger` strategy only, or there is none. -/
inductive TokenFrom (old : Value) (newToken : Option String) (interaction : Value) : Prop
  | absent (h : interaction.field "triggerToken" = .undefined)
  | kept (hstrategy : interaction.field "tokenStrategy" = .str "per_trigger")
      (h : interaction.field "triggerToken" = old)
  | issued (token : String) (hissued : newToken = some token)
      (hstrategy : interaction.field "tokenStrategy" = .str "per_trigger")
      (h : interaction.field "triggerToken" = .str token)

theorem field_filter_ne {key' : String} :
    (Value.obj (fields.filter fun field => field.1 ≠ key')).field key =
      if key = key' then .undefined else (Value.obj fields).field key := by
  show (List.lookup key _).getD _ = _
  rw [Value.lookup_filter_keys fun k => decide (k ≠ key')]
  by_cases h : key = key'
  · simp [h]
  · rw [if_pos (by simpa using h), if_neg h]
    rfl

theorem settleTriggerToken_notification (newToken : String) :
    (Value.obj (settleTriggerToken fresh fields newToken).config).field "notification" =
      (Value.obj fields).field "notification" := by
  unfold settleTriggerToken
  dsimp only
  split_ifs <;> simp [Value.field_setKey]

theorem settleTriggerToken_distinct (h : Value.DistinctObject fields)
    (hfresh : fresh.config.distinctKeys = true) (newToken : String) :
    Value.DistinctObject (settleTriggerToken fresh fields newToken).config := by
  have hrequested : ((Value.obj fields).field "interaction").distinctKeys = true :=
    Value.distinctKeys_field h _
  have hnext := distinct_spread_nil hrequested
  have htoken : (storedTriggerToken fresh.config).distinctKeys = true :=
    Value.distinctKeys_field (Value.distinctKeys_field hfresh _) _
  unfold settleTriggerToken
  dsimp only
  split_ifs
  · exact h
  · exact h.setKey (hnext.setKey htoken)
  · exact h.setKey (hnext.setKey rfl)
  · exact h.setKey (hnext.filter _)

/-- The token and the strategy of an interaction, once it is stored. -/
theorem settleTriggerToken_interaction (newToken : String) :
    TokenFrom (storedTriggerToken fresh.config) (some newToken)
      ((Value.obj (settleTriggerToken fresh fields newToken).config).field "interaction") := by
  unfold settleTriggerToken
  dsimp only
  split_ifs with hplain hkept hissued
  · -- a value that is no object has no token
    apply TokenFrom.absent
    cases hrequested : (Value.obj fields).field "interaction" with
    | obj requested =>
      rw [hrequested] at hplain
      cases hplain
    | _ => rfl
  · rw [Value.field_setKey, if_pos rfl]
    refine .kept ?_ ?_
    · rw [Value.field_setKey, if_neg (by decide)]
      exact eq_of_beq (Bool.and_eq_true_iff.mp hkept).1
    · rw [Value.field_setKey, if_pos rfl]
  · rw [Value.field_setKey, if_pos rfl]
    refine .issued newToken rfl ?_ ?_
    · rw [Value.field_setKey, if_neg (by decide)]
      exact eq_of_beq (Bool.and_eq_true_iff.mp hissued).1
    · rw [Value.field_setKey, if_pos rfl]
  · rw [Value.field_setKey, if_pos rfl]
    apply TokenFrom.absent
    rw [field_filter_ne, if_pos rfl]

/-! ## 8. What becomes of the signing secret -/

/-- `config.notification.signing.secretRef`. -/
def signingSecretRef (config : Value) : Value :=
  ((config.field "notification").field "signing").field "secretRef"

variable {triggerId secretRef : String}

theorem notificationSigningSecretRef_valid (h : notificationSigningSecretRef triggerId = some secretRef) :
    isSecretUri secretRef = true := by
  unfold notificationSigningSecretRef at h
  dsimp only at h
  split_ifs at h with hvalid
  rw [← Option.some.inj h]
  exact hvalid

theorem signingWithRef_distinct (hv : v.distinctKeys = true) :
    Value.DistinctObject (signingWithRef v secretRef) := by
  unfold signingWithRef
  refine Value.DistinctObject.setKey (Value.DistinctObject.filter ?_ _) rfl
  split_ifs
  · exact distinct_spread_nil hv
  · exact Value.DistinctObject.nil

theorem notificationWithSigningRef_distinct (hv : v.distinctKeys = true) :
    Value.DistinctObject (notificationWithSigningRef v secretRef) := by
  have hbase : (if isPlainRecord v = true then v else .obj []).distinctKeys = true := by
    split_ifs
    · exact hv
    · rfl
  exact (distinct_spread_nil hbase).setKey (signingWithRef_distinct (Value.distinctKeys_field hbase _))

theorem notificationWithSigningRef_secretRef :
    ((Value.obj (notificationWithSigningRef v secretRef)).field "signing").field "secretRef" =
      .str secretRef := by
  unfold notificationWithSigningRef
  rw [Value.field_setKey, if_pos rfl]
  unfold signingWithRef
  rw [Value.field_setKey, if_pos rfl]

/-- `notification` is laid over a config with the reference in it. -/
def withSigningRef (config notification : Value) (secretRef : String) : List (String × Value) :=
  Value.setKey (Value.spread [] config) "notification"
    (.obj (notificationWithSigningRef notification secretRef))

theorem withSigningRef_distinct {config : Value} (hconfig : config.distinctKeys = true)
    (hv : v.distinctKeys = true) : Value.DistinctObject (withSigningRef config v secretRef) :=
  (distinct_spread_nil hconfig).setKey (notificationWithSigningRef_distinct hv)

theorem withSigningRef_secretRef {config : Value} :
    signingSecretRef (.obj (withSigningRef config v secretRef)) = .str secretRef := by
  unfold signingSecretRef withSigningRef
  rw [Value.field_setKey, if_pos rfl]
  exact notificationWithSigningRef_secretRef

theorem withSigningRef_notification {config : Value} :
    isPlainRecord ((Value.obj (withSigningRef config v secretRef)).field "notification") = true := by
  unfold withSigningRef
  rw [Value.field_setKey, if_pos rfl]
  rfl

theorem withSigningRef_interaction (h : Value.DistinctObject fields) :
    (Value.obj (withSigningRef (.obj fields) v secretRef)).field "interaction" =
      (Value.obj fields).field "interaction" := by
  unfold withSigningRef
  rw [Value.field_setKey, if_neg (by decide), field_spread h]

theorem rotate_plaintext {existing : Option SecretStore} {workspaceId newPlaintext : String}
    {stored : SecretStore} (h : (rotate existing workspaceId newPlaintext).toOption = some stored) :
    stored.plaintext = newPlaintext := by
  unfold rotate at h
  split_ifs at h
  · cases h
  · cases existing with
    | none =>
      rw [← Option.some.inj h]
    | some row =>
      dsimp only at h
      split_ifs at h
      · cases h
      · rw [← Option.some.inj h]

/-- A stored reference is found, and nothing is issued or migrated. -/
theorem decideNotificationSigning_rederive {config : Value}
    (h : isSecretRef (signingSecretRef config) = true) :
    decideNotificationSigning (config.field "notification") = .rederive := by
  have hsigning : ∀ v : Value, (if v.isObject = true then v.field "signing" else .undefined) =
      v.field "signing" := fun v => by cases v <;> rfl
  have hfields : ∀ (v : Value) (key : String),
      (if v.isObject = true then v else .obj []).field key = v.field key :=
    fun v key => by cases v <;> rfl
  cases href : signingSecretRef config with
  | str secretRef =>
    rw [href] at h
    unfold decideNotificationSigning readStoredSigningSecret
    dsimp only
    rw [hsigning, hfields, hfields, show ((config.field "notification").field "signing").field
      "secretRef" = .str secretRef from href]
    dsimp only
    rw [if_pos (show isSecretUri secretRef = true from h)]
  | _ =>
    rw [href] at h
    cases h

/-- The secret is settled: the reference is in the config, and the stored secret is another one only if
there was no reference to it. -/
theorem settle_spec {newSecret : String} {settled : SettledNotificationSigning}
    (h : settle triggerId fresh fields newSecret = some settled) :
    ∃ secretRef, isSecretUri secretRef = true ∧
      settled.config =
        withSigningRef (.obj fields) ((Value.obj fields).field "notification") secretRef ∧
      (isSecretRef (signingSecretRef fresh.config) = true →
        settled.signingSecret = fresh.signingSecret) := by
  unfold settle at h
  obtain ⟨secretRef, hvalid, h⟩ := Option.bind_eq_some_iff.mp h
  refine ⟨secretRef, notificationSigningSecretRef_valid hvalid, ?_⟩
  split at h
  case h_1 =>
    rw [← Option.some.inj h]
    exact ⟨rfl, fun _ => rfl⟩
  case h_2 plaintext hdecision =>
    obtain ⟨stored, -, h⟩ := Option.bind_eq_some_iff.mp h
    rw [← Option.some.inj h]
    refine ⟨rfl, fun href => ?_⟩
    rw [decideNotificationSigning_rederive href] at hdecision
    cases hdecision
  case h_3 hdecision =>
    obtain ⟨stored, -, h⟩ := Option.bind_eq_some_iff.mp h
    rw [← Option.some.inj h]
    refine ⟨rfl, fun href => ?_⟩
    rw [decideNotificationSigning_rederive href] at hdecision
    cases hdecision

/-! ## 9. One job -/

/-- The token that the request would issue. -/
def TriggerJob.newToken : TriggerJob → Option String
  | .update _ _ dto => some dto.newToken
  | .revokePerTriggerToken _ _ newToken => some newToken
  | _ => none

/-- The interaction as it was, or with a token that comes from somewhere. -/
def InteractionFrom (fresh : Trigger) (newToken : Option String) (config : Value) : Prop :=
  config.field "interaction" = fresh.config.field "interaction" ∨
    TokenFrom (storedTriggerToken fresh.config) newToken (config.field "interaction")

variable {t' : Trigger}

/-- What becomes of the notification of a PATCH: it is stored as it was sent, or as it was, or it is an
object with the reference in it. -/
inductive NotificationFrom (fresh : Trigger) (sent : Option Value) (config : Value)
    (signingSecret : Option SecretStore) : Prop
  | asIs (hsent : isPlainRecord (sent.getD .null) = false)
      (h : config.field "notification" = sent.getD (fresh.config.field "notification"))
      (hsecret : signingSecret = fresh.signingSecret)
  | settled (secretRef : String) (hvalid : isSecretUri secretRef = true)
      (hplain : isPlainRecord (config.field "notification") = true)
      (href : signingSecretRef config = .str secretRef)
      (hsecret : isSecretRef (signingSecretRef fresh.config) = true →
        signingSecret = fresh.signingSecret)

theorem applyServerManagedEiaValues_spec {dto : UpdateTriggerDto}
    {managed : List (String × Value) × Option SecretStore} (hfresh : ObjectConfig fresh)
    (hfields : Value.DistinctObject fields)
    (hinteraction : (Value.obj fields).field "interaction" =
      dto.interaction.getD (fresh.config.field "interaction"))
    (hnotification : (Value.obj fields).field "notification" =
      dto.notification.getD (fresh.config.field "notification"))
    (h : applyServerManagedEiaValues triggerId fresh fields dto = some managed) :
    Value.DistinctObject managed.1 ∧ InteractionFrom fresh (some dto.newToken) (.obj managed.1) ∧
      NotificationFrom fresh dto.notification (.obj managed.1) managed.2 := by
  obtain ⟨stored, hconfig, hstored⟩ := hfresh.held
  have hdistinct : fresh.config.distinctKeys = true := by
    rw [hconfig]
    exact hstored
  unfold applyServerManagedEiaValues at h
  -- the token first
  obtain ⟨config, hcase, hdistinctConfig, hfrom, hsame⟩ : ∃ config,
      (if dto.interaction.isSome then (settleTriggerToken fresh fields dto.newToken).config else fields) =
          config ∧ Value.DistinctObject config ∧ InteractionFrom fresh (some dto.newToken) (.obj config) ∧
        (Value.obj config).field "notification" = (Value.obj fields).field "notification" := by
    refine ⟨_, rfl, ?_⟩
    split_ifs with hsent
    · exact ⟨settleTriggerToken_distinct hfields hdistinct _,
        .inr (settleTriggerToken_interaction _), settleTriggerToken_notification _⟩
    · have hnone : dto.interaction = none := Option.not_isSome_iff_eq_none.mp hsent
      rw [hnone] at hinteraction
      exact ⟨hfields, .inl hinteraction, rfl⟩
  rw [hcase] at h
  dsimp only at h
  split_ifs at h with hsettle
  · -- then the secret
    obtain ⟨settled, hsettled, hmanaged⟩ := Option.map_eq_some_iff.mp h
    obtain ⟨secretRef, hvalid, hwith, hsecret⟩ := settle_spec hsettled
    rw [← hmanaged]
    dsimp only
    rw [hwith]
    have hvalue : ((Value.obj config).field "notification").distinctKeys = true :=
      Value.distinctKeys_field hdistinctConfig _
    refine ⟨withSigningRef_distinct hdistinctConfig hvalue, ?_, .settled secretRef hvalid
      withSigningRef_notification withSigningRef_secretRef hsecret⟩
    unfold InteractionFrom
    rw [withSigningRef_interaction hdistinctConfig]
    exact hfrom
  · rw [← Option.some.inj h]
    refine ⟨hdistinctConfig, hfrom, .asIs ?_ (hsame.trans hnotification) rfl⟩
    cases hsent : dto.notification with
    | none => rfl
    | some v =>
      rw [hsame, hnotification, hsent] at hsettle
      simpa using hsettle

/-- What a PATCH stores. -/
theorem update_spec {workspaceId : String} {dto : UpdateTriggerDto}
    (hdto : (TriggerJob.update triggerId workspaceId dto).Distinct) (hfresh : ObjectConfig fresh)
    (hmerge : (update triggerId workspaceId dto).merge trigger fresh = some t') :
    ∃ config, Value.DistinctObject config ∧
      t' = { fresh.update dto.columns (.obj config) with signingSecret := t'.signingSecret } ∧
      InteractionFrom fresh (some dto.newToken) (.obj config) ∧
      NotificationFrom fresh dto.notification (.obj config) t'.signingSecret := by
  obtain ⟨hraw, hnotification, hinteraction, hchatChannel⟩ := hdto
  unfold update at hmerge
  dsimp only at hmerge
  split at hmerge
  case h_1 => cases hmerge
  case h_2 haccepted =>
    split_ifs at hmerge
    obtain ⟨managed, hmanaged, hstored⟩ := Option.map_eq_some_iff.mp hmerge
    rw [hfresh.currentConfig_eq] at hmanaged
    obtain ⟨stored, hconfig, hdistinct⟩ := hfresh.held
    rw [hconfig] at hmanaged
    -- the typed settings come through the raw merge and the strip
    have hbase : ∀ key ∈ rawConfigTypedKeys,
        (Value.obj (stripInlineAuthKeys (mergeRawConfig stored dto.config))).field key =
          fresh.config.field key := by
      intro key hkey
      rw [hconfig, stripInlineAuthKeys_field (by
        intro hauth
        revert key
        decide)]
      exact (mergeRawConfig_spec hdistinct hraw haccepted).2 key hkey
    have hstrip : Value.DistinctObject (stripInlineAuthKeys (mergeRawConfig stored dto.config)) :=
      (mergeRawConfig_spec hdistinct hraw haccepted).1.filter _
    have hspec := applyServerManagedEiaValues_spec hfresh
      (mergeExternalConfig_distinct hstrip hnotification hinteraction hchatChannel)
      (by rw [mergeExternalConfig_interaction, hbase "interaction" (by decide)])
      (by rw [mergeExternalConfig_notification, hbase "notification" (by decide)]) hmanaged
    refine ⟨managed.1, hspec.1, ?_, hspec.2.1, ?_⟩
    · rw [← hstored]
    · rw [← hstored]
      exact hspec.2.2

/-- One field over a sub-key that is an object. -/
theorem mergeIntoFreshSubKey_singleton {config : Value} {sub fallback : List (String × Value)}
    {name : String} (h : config.field key = .obj sub) :
    mergeIntoFreshSubKey config key [(name, v)] fallback =
      .obj (Value.setKey (Value.spread [] config) key
        (.obj (Value.setKey (Value.spread [] (.obj sub)) name v))) := by
  unfold mergeIntoFreshSubKey
  dsimp only
  rw [h]
  rfl

/-- What revoking the token stores. -/
theorem revokePerTriggerToken_spec {workspaceId newToken : String} (hfresh : ObjectConfig fresh)
    (hmerge : (revokePerTriggerToken triggerId workspaceId newToken).merge trigger fresh = some t') :
    ∃ config, Value.DistinctObject config ∧ t' = fresh.update [] (.obj config) ∧
      TokenFrom (storedTriggerToken fresh.config) (some newToken)
        ((Value.obj config).field "interaction") ∧
      (Value.obj config).field "notification" = fresh.config.field "notification" := by
  obtain ⟨fields, hconfig, hdistinct⟩ := hfresh.held
  unfold revokePerTriggerToken rewriteTriggerConfigLocked at hmerge
  dsimp only at hmerge
  rw [hfresh.freshConfig_eq] at hmerge
  split_ifs at hmerge with hworkspace hbefore hunder
  · cases hmerge
  -- under the lock the interaction is still of the strategy, so it is an object
  obtain ⟨interaction, hinteraction, hstrategy⟩ : ∃ interaction,
      fresh.config.field "interaction" = .obj interaction ∧
        (Value.obj interaction).field "tokenStrategy" = .str "per_trigger" := by
    unfold isPerTriggerInteraction at hunder
    cases hvalue : fresh.config.field "interaction" with
    | obj interaction =>
      rw [hvalue] at hunder
      exact ⟨interaction, rfl, by simpa [Value.isObject] using hunder⟩
    | _ =>
      rw [hvalue] at hunder
      exact absurd rfl hunder
  have hsub : Value.DistinctObject interaction := by
    have hfield := Value.distinctKeys_field (v := .obj fields) hdistinct "interaction"
    rw [← hconfig, hinteraction] at hfield
    exact hfield
  rw [mergeIntoFreshSubKey_singleton hinteraction, hconfig] at hmerge
  refine ⟨_, ?_, (Option.some.inj hmerge).symm, .issued newToken rfl ?_ ?_, ?_⟩
  · exact (distinct_spread_nil hdistinct).setKey ((distinct_spread_nil hsub).setKey rfl)
  · rw [Value.field_setKey, if_pos rfl, Value.field_setKey, if_neg (by decide), field_spread hsub]
    exact hstrategy
  · rw [Value.field_setKey, if_pos rfl, Value.field_setKey, if_pos rfl]
  · rw [Value.field_setKey, if_neg (by decide), field_spread hdistinct, hconfig]

/-- What promoting a picked secret stores, with a notification that is an object. -/
theorem promoteOneLocked_spec {pickedV2 : String} (hfresh : ObjectConfig fresh)
    (hmerge : promoteOneLocked triggerId pickedV2 fresh = some t') :
    fresh.notificationSecretV2 = some pickedV2 ∧ t'.notificationSecretV2 = none ∧
      t'.workspaceId = fresh.workspaceId ∧
      (((fresh.config.field "notification").isObject = false ∧ t'.config = fresh.config ∧
          t'.signingSecret = fresh.signingSecret) ∨
        ∃ secretRef config, isSecretUri secretRef = true ∧ Value.DistinctObject config ∧
          t'.config = Value.jsonRoundTrip (.obj config) ∧
          (Value.obj config).field "interaction" = fresh.config.field "interaction" ∧
          isPlainRecord ((Value.obj config).field "notification") = true ∧
          signingSecretRef (.obj config) = .str secretRef ∧
          t'.signingSecret.map SecretStore.plaintext = some pickedV2) := by
  obtain ⟨fields, hconfig, hdistinct⟩ := hfresh.held
  unfold promoteOneLocked at hmerge
  dsimp only at hmerge
  split_ifs at hmerge with hpicked hobject
  · rw [← Option.some.inj hmerge]
    exact ⟨Decidable.of_not_not hpicked, rfl, rfl, .inl ⟨by simpa using hobject, rfl, rfl⟩⟩
  · obtain ⟨secretRef, hvalid, hmerge⟩ := Option.bind_eq_some_iff.mp hmerge
    obtain ⟨stored, hrotate, hmerge⟩ := Option.bind_eq_some_iff.mp hmerge
    rw [← Option.some.inj hmerge]
    refine ⟨Decidable.of_not_not hpicked, rfl, rfl, .inr ⟨secretRef,
      withSigningRef fresh.config (fresh.config.field "notification") secretRef,
      notificationSigningSecretRef_valid hvalid, ?_, rfl, ?_, withSigningRef_notification,
      withSigningRef_secretRef, ?_⟩⟩
    · have hkeys : fresh.config.distinctKeys = true := by
        rw [hconfig]
        exact hdistinct
      exact withSigningRef_distinct hkeys (Value.distinctKeys_field hkeys _)
    · rw [hconfig]
      exact withSigningRef_interaction hdistinct
    · exact congrArg some (rotate_plaintext hrotate)

/-- What a write of the chat channel stores. -/
theorem rewriteChatChannel_spec {channel : (trigger : Trigger) → (freshConfig : Value) → Value}
    (hchannel : (TriggerJob.rewriteChatChannel triggerId channel columns).Distinct)
    (hfresh : ObjectConfig fresh)
    (hmerge : (rewriteChatChannel triggerId channel columns).merge trigger fresh = some t') :
    ∃ config, Value.DistinctObject config ∧ t' = fresh.update columns (.obj config) ∧
      (Value.obj config).field "interaction" = fresh.config.field "interaction" ∧
      (Value.obj config).field "notification" = fresh.config.field "notification" := by
  obtain ⟨fields, hconfig, hdistinct⟩ := hfresh.held
  unfold rewriteChatChannel rewriteTriggerConfigLocked at hmerge
  dsimp only at hmerge
  rw [hfresh.freshConfig_eq, hconfig] at hmerge
  refine ⟨_, ?_, (Option.some.inj hmerge).symm, ?_, ?_⟩
  · exact (distinct_spread_nil hdistinct).setKey (hchannel trigger (.obj fields) hdistinct)
  · rw [Value.field_setKey, if_neg (by decide), field_spread hdistinct, hconfig]
  · rw [Value.field_setKey, if_neg (by decide), field_spread hdistinct, hconfig]

end Clemvion.Triggers
