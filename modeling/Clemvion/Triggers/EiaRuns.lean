import Clemvion.Triggers.EiaValues

/-!
# EiaRuns — tokens and secrets over whole runs

Any number of requests work on the triggers at once, each with the snapshot it took before its lock.
What a job stores has been said job by job; here it is carried along every run.
-/

namespace Clemvion.Triggers

open Js Library

variable {fresh trigger t' : Trigger}

/-! ## 1. The interaction, job by job -/

/-- The interaction is untouched, or stored anew: as it was, or with a token that comes from somewhere. -/
inductive InteractionStored (fresh : Trigger) (newToken : Option String) (config : Value) : Prop
  | untouched (h : config.field "interaction" = fresh.config.field "interaction")
  | stored (interaction : Value) (hdistinct : interaction.distinctKeys = true)
      (h : config.field "interaction" = Value.jsonRoundTrip interaction)
      (hfrom : interaction = fresh.config.field "interaction" ∨
        TokenFrom (storedTriggerToken fresh.config) newToken interaction)

theorem interactionStored_of_update {newToken : Option String} {fields : List (String × Value)}
    (columns : List (String × Value)) (hdistinct : Value.DistinctObject fields)
    (hfrom : InteractionFrom fresh newToken (.obj fields)) :
    InteractionStored fresh newToken (fresh.update columns (.obj fields)).config :=
  .stored _ (Value.distinctKeys_field hdistinct "interaction")
    (field_stored (v := .obj fields) hdistinct "interaction") hfrom

/-- Every job leaves an object, and an interaction of which is known where its token is from. -/
theorem TriggerJob.interaction_spec (j : TriggerJob) (hj : j.Distinct) (hfresh : ObjectConfig fresh)
    (hmerge : j.job.merge trigger fresh = some t') :
    ObjectConfig t' ∧ InteractionStored fresh j.newToken t'.config := by
  cases j with
  | update triggerId workspaceId dto =>
    obtain ⟨config, hdistinct, hstored, hfrom, -⟩ := update_spec hj hfresh hmerge
    rw [hstored]
    exact ⟨⟨(ObjectConfig.update fresh dto.columns hdistinct).held⟩,
      interactionStored_of_update dto.columns hdistinct hfrom⟩
  | revokePerTriggerToken triggerId workspaceId newToken =>
    obtain ⟨config, hdistinct, hstored, hfrom, -⟩ := revokePerTriggerToken_spec hfresh hmerge
    rw [hstored]
    exact ⟨ObjectConfig.update _ _ hdistinct, interactionStored_of_update _ hdistinct (.inr hfrom)⟩
  | writeRotation triggerId workspaceId hex rotatedAt =>
    unfold job Triggers.writeRotation at hmerge
    dsimp only at hmerge
    split_ifs at hmerge
    rw [← Option.some.inj hmerge]
    exact ⟨⟨hfresh.held⟩, .untouched rfl⟩
  | promoteRotated triggerId nowMs =>
    unfold job Triggers.promoteRotated at hmerge
    dsimp only at hmerge
    split at hmerge
    case h_2 => cases hmerge
    case h_1 pickedV2 rotatedAt _ _ =>
      split_ifs at hmerge
      obtain ⟨-, -, -, ⟨-, hconfig, -⟩ | ⟨_, config, -, hdistinct, hconfig, hinteraction, -⟩⟩ :=
        promoteOneLocked_spec hfresh hmerge
      · rw [hconfig]
        obtain ⟨fields, hfields, hkeys⟩ := hfresh.held
        exact ⟨⟨fields, hconfig.trans hfields, hkeys⟩, .untouched rfl⟩
      · rw [hconfig]
        exact ⟨⟨_, hconfig, Value.distinctKeys_jsonRoundTrip (.obj config) hdistinct⟩,
          .stored _ (Value.distinctKeys_field hdistinct "interaction")
            (field_stored (v := .obj config) hdistinct "interaction") (.inl hinteraction)⟩
  | rewriteChatChannel triggerId channel columns =>
    obtain ⟨config, hdistinct, hstored, hinteraction, -⟩ := rewriteChatChannel_spec hj hfresh hmerge
    rw [hstored]
    exact ⟨ObjectConfig.update _ _ hdistinct,
      interactionStored_of_update _ hdistinct (.inl hinteraction)⟩

/-- The stored token after a job: none, the old one, or the one that the job issues; and in the last two
cases, unless nothing was touched, with the strategy of such tokens. -/
theorem InteractionStored.token {newToken : Option String} {config : Value} {x : String}
    (h : InteractionStored fresh newToken config) (hx : storedTriggerToken config = .str x) :
    (storedTriggerToken fresh.config = .str x ∨ newToken = some x) ∧
      ((config.field "interaction").field "tokenStrategy" = .str "per_trigger" ∨
        storedTriggerToken fresh.config = .str x ∧
          ((fresh.config.field "interaction").field "tokenStrategy" = .str "per_trigger" →
            (config.field "interaction").field "tokenStrategy" = .str "per_trigger")) := by
  unfold storedTriggerToken at hx
  cases h with
  | untouched h =>
    rw [h] at hx ⊢
    exact ⟨.inl hx, .inr ⟨hx, id⟩⟩
  | stored interaction hdistinct h hfrom =>
    rw [h, field_stored hdistinct, jsonRoundTrip_eq_str_iff] at hx
    rw [h, field_stored hdistinct, jsonRoundTrip_eq_str_iff]
    obtain hsame | hfrom := hfrom
    · rw [hsame] at hx ⊢
      exact ⟨.inl hx, .inr ⟨hx, id⟩⟩
    · cases hfrom with
      | absent hnone =>
        rw [hnone] at hx
        cases hx
      | kept hstrategy hold => exact ⟨.inl (hold.symm.trans hx), .inl hstrategy⟩
      | issued token hissued hstrategy htoken =>
        rw [htoken] at hx
        rw [hissued, Value.str.inj hx]
        exact ⟨.inr rfl, .inl hstrategy⟩

/-! ## 2. The token of the trigger -/

variable {ι lock : Type} [DecidableEq ι] [DecidableEq lock] (hashtext : String → lock)

/-- A run of requests. -/
def requestRun (jobs : ι → TriggerJob) (triggers : String → Option Trigger)
    (events : List (LockEvent ι String)) : LockState ι String lock Trigger :=
  rewriteRun hashtext (fun i => (jobs i).job) triggers events

theorem requestRun_append (jobs : ι → TriggerJob) (triggers : String → Option Trigger)
    (before after : List (LockEvent ι String)) :
    requestRun hashtext jobs triggers (before ++ after) =
      lockRun (fun i => (jobs i).job) (acquireTriggerConfigLock hashtext)
        (requestRun hashtext jobs triggers before) after := lockRun_append before after

theorem requestRun_locked (jobs : ι → TriggerJob) (triggers : String → Option Trigger)
    (events : List (LockEvent ι String)) :
    Locked (fun i => (jobs i).job) (acquireTriggerConfigLock hashtext)
      (requestRun hashtext jobs triggers events) := (locked_start triggers).locked_run events

/-- Along every run the configs stay objects. -/
theorem requestRun_objectConfig (jobs : ι → TriggerJob) (hjobs : ∀ i, (jobs i).Distinct)
    (triggers : String → Option Trigger) (hstart : ∀ k t, triggers k = some t → ObjectConfig t)
    (events : List (LockEvent ι String)) :
    ∀ k t, (requestRun hashtext jobs triggers events).rows k = some t → ObjectConfig t :=
  ((locked_start triggers).keeps (P := fun _ t => ObjectConfig t) (Q := fun _ _ => True) hstart
    (fun _ _ _ => trivial) (fun _ _ _ => trivial) events fun i _ _ _ _ _ _ hfresh hmerge =>
      ((jobs i).interaction_spec (hjobs i) hfresh hmerge).1).1

/-- A token that a trigger does not have any more never comes back, whatever requests are under way with
snapshots that still have it, unless a request that is still to write would issue the same one. -/
theorem triggerToken_not_revived (jobs : ι → TriggerJob) (hjobs : ∀ i, (jobs i).Distinct)
    (triggers : String → Option Trigger) (hstart : ∀ k t, triggers k = some t → ObjectConfig t)
    (before after : List (LockEvent ι String)) (triggerId token : String)
    (hgone : ∀ t, (requestRun hashtext jobs triggers before).rows triggerId = some t →
      storedTriggerToken t.config ≠ .str token)
    (hissued : ∀ i, (jobs i).newToken = some token →
      (requestRun hashtext jobs triggers before).phase i = .ended .wrote) :
    ∀ t, (requestRun hashtext jobs triggers (before ++ after)).rows triggerId = some t →
      storedTriggerToken t.config ≠ .str token := by
  intro t ht
  rw [requestRun_append] at ht
  have hkept := (requestRun_locked hashtext jobs triggers before).keeps
    (P := fun k t => ObjectConfig t ∧ (k = triggerId → storedTriggerToken t.config ≠ .str token))
    (Q := fun _ _ => True)
    (fun k t hrow => ⟨requestRun_objectConfig hashtext jobs hjobs triggers hstart before k t hrow,
      fun hk => hgone t (hk ▸ hrow)⟩)
    (fun _ _ _ => trivial) (fun _ _ _ => trivial) after ?_
  · exact (hkept.1 triggerId t ht).2 rfl
  · -- a job that writes has not issued the token, and has found another one or none
    intro i _ fresh t' hbefore _ _ hfresh hmerge
    obtain ⟨hobject, hstored⟩ := (jobs i).interaction_spec (hjobs i) hfresh.1 hmerge
    refine ⟨hobject, fun hk htoken => ?_⟩
    obtain hold | hnew := (hstored.token htoken).1
    · exact hfresh.2 hk hold
    · exact hbefore (hissued i hnew)

/-- One trigger, whose interaction has a token. -/
def tokenTriggers (k : String) : Option Trigger :=
  if k = "t" then
    some
      { workspaceId := "w"
        config := .obj [("interaction", .obj [("tokenStrategy", .str "per_trigger"),
          ("enabled", .bool true), ("triggerToken", .str "itk_old")])]
        notificationSecretV2 := none
        notificationRotatedAt := none
        columns := []
        signingSecret := none }
  else none

/-- The strategy is changed while a request to revoke the token is under way. -/
def changeAndRevoke : Bool → TriggerJob
  | false => .update "t" "w"
      { config := .undefined
        notification := none
        interaction := some (.obj [("tokenStrategy", .str "per_execution")])
        chatChannel := none
        columns := []
        newToken := "itk_a"
        newSecret := "wsk_a" }
  | true => .revokePerTriggerToken "t" "w" "itk_b"

theorem tokenTriggers_object (k : String) (t : Trigger) (h : tokenTriggers k = some t) : ObjectConfig t := by
  unfold tokenTriggers at h
  split_ifs at h
  rw [← Option.some.inj h]
  exact ⟨_, rfl, by decide⟩

theorem changeAndRevoke_distinct (i : Bool) : (changeAndRevoke i).Distinct := by
  cases i with
  | false =>
    unfold TriggerJob.Distinct changeAndRevoke
    decide
  | true => trivial

/-- The token is gone with the strategy, and the request that had seen it does not bring one back. -/
theorem triggerToken_not_revived_changed :
    let final := requestRun (fun key => key) changeAndRevoke tokenTriggers
      ([.look true, .look false, .acquire false, .read false, .commit false] ++
        [.acquire true, .read true, .commit true])
    (final.rows "t").isSome = true ∧
      ∀ t, final.rows "t" = some t → storedTriggerToken t.config ≠ .str "itk_old" :=
  ⟨by decide, triggerToken_not_revived (fun key => key) changeAndRevoke changeAndRevoke_distinct
    tokenTriggers tokenTriggers_object _ _ "t" "itk_old"
    (fun t ht => (show ∀ t ∈ (requestRun (fun key => key) changeAndRevoke tokenTriggers
      [.look true, .look false, .acquire false, .read false, .commit false]).rows "t",
        storedTriggerToken t.config ≠ .str "itk_old" from by decide) t ht) (by decide)⟩

/-- In every state of every run a stored token belongs to an interaction whose strategy is
`per_trigger`, if that was so at the start. -/
theorem triggerToken_per_trigger (jobs : ι → TriggerJob) (hjobs : ∀ i, (jobs i).Distinct)
    (triggers : String → Option Trigger) (hstart : ∀ k t, triggers k = some t → ObjectConfig t)
    (hper : ∀ k t token, triggers k = some t → storedTriggerToken t.config = .str token →
      (t.config.field "interaction").field "tokenStrategy" = .str "per_trigger")
    (events : List (LockEvent ι String)) :
    ∀ k t token, (requestRun hashtext jobs triggers events).rows k = some t →
      storedTriggerToken t.config = .str token →
        (t.config.field "interaction").field "tokenStrategy" = .str "per_trigger" := by
  intro k t token hrow
  have hkept := (requestRun_locked hashtext jobs triggers []).keeps
    (P := fun _ t => ObjectConfig t ∧ ∀ token, storedTriggerToken t.config = .str token →
      (t.config.field "interaction").field "tokenStrategy" = .str "per_trigger")
    (Q := fun _ _ => True) (fun k t hrow => ⟨hstart k t hrow, fun token => hper k t token hrow⟩)
    (fun _ _ _ => trivial) (fun _ _ _ => trivial) events ?_
  · exact (hkept.1 k t hrow).2 token
  · intro i _ fresh t' _ _ _ hfresh hmerge
    obtain ⟨hobject, hstored⟩ := (jobs i).interaction_spec (hjobs i) hfresh.1 hmerge
    refine ⟨hobject, fun token htoken => ?_⟩
    obtain hnow | ⟨hold, hcarry⟩ := (hstored.token htoken).2
    · exact hnow
    · exact hcarry (hfresh.2 token hold)

theorem triggerToken_per_trigger_changed :
    let final := requestRun (fun key => key) changeAndRevoke tokenTriggers
      [.look true, .acquire true, .read true, .commit true]
    (final.rows "t").isSome = true ∧ ∀ k t token, final.rows k = some t →
      storedTriggerToken t.config = .str token →
        (t.config.field "interaction").field "tokenStrategy" = .str "per_trigger" :=
  ⟨by decide, triggerToken_per_trigger (fun key => key) changeAndRevoke changeAndRevoke_distinct
    tokenTriggers tokenTriggers_object (fun k t token hrow _ => by
      unfold tokenTriggers at hrow
      split_ifs at hrow
      rw [← Option.some.inj hrow]
      decide) _⟩

/-! ## 3. The secret, job by job -/

/-- What a job does about the signing secret and the rotated one. -/
inductive SecretStep (j : TriggerJob) (trigger fresh t' : Trigger) : Prop
  | kept (hj : ∀ triggerId nowMs, j ≠ .promoteRotated triggerId nowMs)
      (hv2 : t'.notificationSecretV2 = fresh.notificationSecretV2)
      (hat : t'.notificationRotatedAt = fresh.notificationRotatedAt)
      (hsecret : isSecretRef (signingSecretRef fresh.config) = true →
        t'.signingSecret = fresh.signingSecret)
  | rotated (triggerId workspaceId hex : String) (rotatedAt : Int)
      (hj : j = .writeRotation triggerId workspaceId hex rotatedAt)
      (ht : t' = { fresh with
        notificationSecretV2 := some (newNotificationSigningSecret hex)
        notificationRotatedAt := some rotatedAt })
  | promoted (triggerId pickedV2 : String) (nowMs rotatedAt : Int)
      (hj : j = .promoteRotated triggerId nowMs)
      (hpicked : trigger.notificationSecretV2 = some pickedV2)
      (hat : trigger.notificationRotatedAt = some rotatedAt)
      (hgrace : rotatedAt ≤ nowMs - rotationGraceMs)
      (hfresh : fresh.notificationSecretV2 = some pickedV2)
      (hv2 : t'.notificationSecretV2 = none)
      (hsecret : t'.signingSecret.map SecretStore.plaintext = some pickedV2)
      (href : isSecretRef (signingSecretRef t'.config) = true)
  | cleared (triggerId : String) (nowMs : Int) (hj : j = .promoteRotated triggerId nowMs)
      (hobject : (fresh.config.field "notification").isObject = false)
      (hv2 : t'.notificationSecretV2 = none) (hsecret : t'.signingSecret = fresh.signingSecret)

theorem isSecretRef_jsonRoundTrip (v : Value) : isSecretRef (Value.jsonRoundTrip v) = isSecretRef v := by
  cases v with
  | num n => cases n <;> rfl
  | _ => rfl

theorem signingSecretRef_stored {v : Value} (h : v.distinctKeys = true) :
    signingSecretRef (Value.jsonRoundTrip v) = Value.jsonRoundTrip (signingSecretRef v) := by
  unfold signingSecretRef
  rw [field_stored h, field_stored (Value.distinctKeys_field h _),
    field_stored (Value.distinctKeys_field (Value.distinctKeys_field h _) _)]

theorem TriggerJob.secret_spec (j : TriggerJob) (hj : j.Distinct) (hfresh : ObjectConfig fresh)
    (hmerge : j.job.merge trigger fresh = some t') : SecretStep j trigger fresh t' := by
  cases j with
  | update triggerId workspaceId dto =>
    obtain ⟨config, hdistinct, hstored, -, hnotification⟩ := update_spec hj hfresh hmerge
    refine .kept (fun _ _ h => nomatch h) ?_ ?_ fun href => ?_
    · rw [hstored]
      rfl
    · rw [hstored]
      rfl
    · cases hnotification with
      | asIs hsent h hsecret => exact hsecret
      | settled secretRef hvalid hplain hset hsecret => exact hsecret href
  | revokePerTriggerToken triggerId workspaceId newToken =>
    obtain ⟨config, -, hstored, -⟩ := revokePerTriggerToken_spec hfresh hmerge
    rw [hstored]
    exact .kept (fun _ _ h => nomatch h) rfl rfl fun _ => rfl
  | writeRotation triggerId workspaceId hex rotatedAt =>
    unfold job Triggers.writeRotation at hmerge
    dsimp only at hmerge
    split_ifs at hmerge
    exact .rotated triggerId workspaceId hex rotatedAt rfl (Option.some.inj hmerge).symm
  | promoteRotated triggerId nowMs =>
    unfold job Triggers.promoteRotated at hmerge
    dsimp only at hmerge
    split at hmerge
    case h_2 => cases hmerge
    case h_1 pickedV2 rotatedAt hpicked hat =>
      split_ifs at hmerge with hgrace
      obtain ⟨hv2, hnone, -, ⟨hobject, -, hsecret⟩ |
        ⟨secretRef, config, hvalid, hdistinct, hconfig, -, -, href, hsecret⟩⟩ :=
        promoteOneLocked_spec hfresh hmerge
      · exact .cleared triggerId nowMs rfl hobject hnone hsecret
      · refine .promoted triggerId pickedV2 nowMs rotatedAt rfl hpicked hat hgrace.1 hv2 hnone hsecret ?_
        rw [hconfig, signingSecretRef_stored (v := .obj config) hdistinct, href]
        exact hvalid
  | rewriteChatChannel triggerId channel columns =>
    obtain ⟨config, -, hstored, -⟩ := rewriteChatChannel_spec hj hfresh hmerge
    rw [hstored]
    exact .kept (fun _ _ h => nomatch h) rfl rfl fun _ => rfl

/-- The request does not put anything but an object in the place of the notification. -/
def TriggerJob.PlainNotification : TriggerJob → Prop
  | .update _ _ dto => ∀ v ∈ dto.notification, isPlainRecord v = true
  | _ => True

/-- An object as the notification, and a reference in it, stay. -/
theorem TriggerJob.notification_spec (j : TriggerJob) (hj : j.Distinct) (hplain : j.PlainNotification)
    (hfresh : ObjectConfig fresh) (hobject : isPlainRecord (fresh.config.field "notification") = true)
    (hmerge : j.job.merge trigger fresh = some t') :
    isPlainRecord (t'.config.field "notification") = true ∧
      (isSecretRef (signingSecretRef fresh.config) = true →
        isSecretRef (signingSecretRef t'.config) = true) := by
  -- a config that is stored with the same notification
  have hsame : ∀ {config : List (String × Value)}, Value.DistinctObject config →
      t'.config = Value.jsonRoundTrip (.obj config) →
        (Value.obj config).field "notification" = fresh.config.field "notification" →
          isPlainRecord (t'.config.field "notification") = true ∧
            (isSecretRef (signingSecretRef fresh.config) = true →
              isSecretRef (signingSecretRef t'.config) = true) := by
    intro config hdistinct hconfig hnotification
    rw [hconfig, field_stored (v := .obj config) hdistinct, isPlainRecord_jsonRoundTrip, hnotification,
      signingSecretRef_stored (v := .obj config) hdistinct, isSecretRef_jsonRoundTrip]
    refine ⟨hobject, fun href => ?_⟩
    unfold signingSecretRef at href ⊢
    rwa [hnotification]
  have hnew : ∀ {config : List (String × Value)} {secretRef : String}, Value.DistinctObject config →
      t'.config = Value.jsonRoundTrip (.obj config) → isSecretUri secretRef = true →
        isPlainRecord ((Value.obj config).field "notification") = true →
          signingSecretRef (.obj config) = .str secretRef →
            isPlainRecord (t'.config.field "notification") = true ∧
              (isSecretRef (signingSecretRef fresh.config) = true →
                isSecretRef (signingSecretRef t'.config) = true) := by
    intro config secretRef hdistinct hconfig hvalid hnotification href
    rw [hconfig, field_stored (v := .obj config) hdistinct, isPlainRecord_jsonRoundTrip,
      signingSecretRef_stored (v := .obj config) hdistinct, href]
    exact ⟨hnotification, fun _ => hvalid⟩
  cases j with
  | update triggerId workspaceId dto =>
    obtain ⟨config, hdistinct, hstored, -, hnotification⟩ := update_spec hj hfresh hmerge
    have hconfig : t'.config = Value.jsonRoundTrip (.obj config) := by
      rw [hstored]
      rfl
    cases hnotification with
    | asIs hsent h hsecret =>
      -- nothing was sent, since what is sent is an object
      cases hdto : dto.notification with
      | none =>
        rw [hdto] at h
        exact hsame hdistinct hconfig h
      | some v =>
        rw [hdto, Option.getD_some, hplain v hdto] at hsent
        cases hsent
    | settled secretRef hvalid hnotification href hsecret =>
      exact hnew hdistinct hconfig hvalid hnotification href
  | revokePerTriggerToken triggerId workspaceId newToken =>
    obtain ⟨config, hdistinct, hstored, -, hnotification⟩ := revokePerTriggerToken_spec hfresh hmerge
    exact hsame hdistinct (by rw [hstored]; rfl) hnotification
  | writeRotation triggerId workspaceId hex rotatedAt =>
    unfold job Triggers.writeRotation at hmerge
    dsimp only at hmerge
    split_ifs at hmerge
    rw [← Option.some.inj hmerge]
    exact ⟨hobject, id⟩
  | promoteRotated triggerId nowMs =>
    unfold job Triggers.promoteRotated at hmerge
    dsimp only at hmerge
    split at hmerge
    case h_2 => cases hmerge
    case h_1 pickedV2 rotatedAt hpicked hat =>
      split_ifs at hmerge with hgrace
      obtain ⟨-, -, -, ⟨hnone, -, -⟩ |
        ⟨secretRef, config, hvalid, hdistinct, hconfig, -, hnotification, href, -⟩⟩ :=
        promoteOneLocked_spec hfresh hmerge
      · cases hvalue : fresh.config.field "notification" with
        | obj fields =>
          rw [hvalue] at hnone
          cases hnone
        | _ =>
          rw [hvalue] at hobject
          cases hobject
      · exact hnew hdistinct hconfig hvalid hnotification href
  | rewriteChatChannel triggerId channel columns =>
    obtain ⟨config, hdistinct, hstored, -, hnotification⟩ := rewriteChatChannel_spec hj hfresh hmerge
    exact hsame hdistinct (by rw [hstored]; rfl) hnotification

/-! ## 4. The secret over whole runs -/

variable {hashtext} in
/-- A write of a request, with what it read under its lock. -/
theorem requestRun_commit {jobs : ι → TriggerJob} {triggers : String → Option Trigger}
    {before : List (LockEvent ι String)} {i : ι}
    (hbefore : (requestRun hashtext jobs triggers before).phase i ≠ .ended .wrote)
    (hafter : (requestRun hashtext jobs triggers (before ++ [.commit i])).phase i = .ended .wrote) :
    ∃ first fresh t', ((requestRun hashtext jobs triggers before).phase i).first = some first ∧
      (requestRun hashtext jobs triggers before).rows (jobs i).job.row = some fresh ∧
      (jobs i).job.merge first fresh = some t' ∧
      (requestRun hashtext jobs triggers (before ++ [.commit i])).rows (jobs i).job.row = some t' := by
  have hlocked := requestRun_locked hashtext jobs triggers before
  have hstep : requestRun hashtext jobs triggers (before ++ [.commit i]) =
      lockStep (fun i => (jobs i).job) (acquireTriggerConfigLock hashtext)
        (requestRun hashtext jobs triggers before) (.commit i) :=
    requestRun_append hashtext jobs triggers before [.commit i]
  rw [hstep] at hafter ⊢
  have heffect : Effect (fun i => (jobs i).job) (acquireTriggerConfigLock hashtext) _ _ _ _ :=
    lockStep_effect (s := requestRun hashtext jobs triggers before) (.commit i)
  obtain ⟨first, fresh, t', hphase, hrow, hmerge, hrows⟩ := heffect.commit_of_wrote hbefore hafter
  have hfresh := (hlocked.fresh i first fresh hphase).resolve_right hrow
  refine ⟨first, fresh, t', by rw [hphase]; rfl, hfresh, hmerge, ?_⟩
  rw [hrows]
  exact Function.update_self ..

/-- A secret waits in a trigger only as some rotation of that trigger has put it there. -/
def RotatedBy (jobs : ι → TriggerJob) (k : String) (t : Trigger) : Prop :=
  ∀ secret, t.notificationSecretV2 = some secret → ∃ i workspaceId hex rotatedAt,
    jobs i = .writeRotation k workspaceId hex rotatedAt ∧
      secret = newNotificationSigningSecret hex ∧ t.notificationRotatedAt = some rotatedAt

theorem requestRun_rotatedBy (jobs : ι → TriggerJob) (hjobs : ∀ i, (jobs i).Distinct)
    (triggers : String → Option Trigger) (hstart : ∀ k t, triggers k = some t → ObjectConfig t)
    (hfirst : ∀ k t, triggers k = some t → t.notificationSecretV2 = none)
    (events : List (LockEvent ι String)) :
    (∀ k t, (requestRun hashtext jobs triggers events).rows k = some t →
      ObjectConfig t ∧ RotatedBy jobs k t) ∧
    ∀ i first, ((requestRun hashtext jobs triggers events).phase i).first = some first →
      ObjectConfig first ∧ RotatedBy jobs (jobs i).job.row first := by
  refine (locked_start triggers).keeps (P := fun k t => ObjectConfig t ∧ RotatedBy jobs k t)
    (Q := fun i first => ObjectConfig first ∧ RotatedBy jobs (jobs i).job.row first)
    (fun k t hrow => ⟨hstart k t hrow, fun secret hsecret => ?_⟩) (fun _ _ h => nomatch h)
    (fun _ _ h => h) events fun i first fresh t' _ _ _ hfresh hmerge => ?_
  · rw [hfirst k t hrow] at hsecret
    cases hsecret
  · refine ⟨((jobs i).interaction_spec (hjobs i) hfresh.1 hmerge).1, fun secret hsecret => ?_⟩
    cases (jobs i).secret_spec (hjobs i) hfresh.1 hmerge with
    | kept _ hv2 hat hkept =>
      rw [hv2] at hsecret
      rw [hat]
      exact hfresh.2 secret hsecret
    | rotated triggerId workspaceId hex rotatedAt hj ht =>
      rw [ht] at hsecret ⊢
      have hrow : (jobs i).job.row = triggerId := by
        rw [hj]
        rfl
      rw [hrow]
      exact ⟨i, workspaceId, hex, rotatedAt, hj, (Option.some.inj hsecret).symm, rfl⟩
    | promoted _ _ _ _ _ _ _ _ _ hv2 =>
      rw [hv2] at hsecret
      cases hsecret
    | cleared _ _ _ _ hv2 =>
      rw [hv2] at hsecret
      cases hsecret

/-- A promotion that writes has found no notification to sign and leaves the stored secret alone, or it
stores the secret of a rotation of that trigger that is at least the whole grace older than the clock of
the promotion: even if the secret was rotated again after the promotion had picked its candidates. -/
theorem promoteRotated_after_grace (jobs : ι → TriggerJob) (hjobs : ∀ i, (jobs i).Distinct)
    (triggers : String → Option Trigger) (hstart : ∀ k t, triggers k = some t → ObjectConfig t)
    (hfirst : ∀ k t, triggers k = some t → t.notificationSecretV2 = none)
    (hsecrets : ∀ i j k k' ws ws' hex hex' at' at'', jobs i = .writeRotation k ws hex at' →
      jobs j = .writeRotation k' ws' hex' at'' →
        newNotificationSigningSecret hex = newNotificationSigningSecret hex' → i = j)
    (before : List (LockEvent ι String)) (p : ι) (triggerId : String) (nowMs : Int)
    (hp : jobs p = .promoteRotated triggerId nowMs)
    (hbefore : (requestRun hashtext jobs triggers before).phase p ≠ .ended .wrote)
    (hafter : (requestRun hashtext jobs triggers (before ++ [.commit p])).phase p = .ended .wrote) :
    ∃ t t', (requestRun hashtext jobs triggers before).rows triggerId = some t ∧
      (requestRun hashtext jobs triggers (before ++ [.commit p])).rows triggerId = some t' ∧
      t'.notificationSecretV2 = none ∧
      (((t.config.field "notification").isObject = false ∧ t'.signingSecret = t.signingSecret) ∨
        ∃ i workspaceId hex rotatedAt, jobs i = .writeRotation triggerId workspaceId hex rotatedAt ∧
          t.notificationSecretV2 = some (newNotificationSigningSecret hex) ∧
          t.notificationRotatedAt = some rotatedAt ∧
          t'.signingSecret.map SecretStore.plaintext = some (newNotificationSigningSecret hex) ∧
          rotatedAt + rotationGraceMs ≤ nowMs) := by
  obtain ⟨first, fresh, t', hlook, hrow, hmerge, hrow'⟩ := requestRun_commit hbefore hafter
  obtain ⟨hrows, hlooks⟩ := requestRun_rotatedBy hashtext jobs hjobs triggers hstart hfirst before
  have htrigger : (jobs p).job.row = triggerId := by
    rw [hp]
    rfl
  rw [htrigger] at hrow hrow'
  obtain ⟨hobject, hrotated⟩ := hrows triggerId fresh hrow
  obtain ⟨-, hpicked⟩ := hlooks p first hlook
  have hspec := (jobs p).secret_spec (hjobs p) hobject hmerge
  rw [hp] at hspec
  cases hspec with
  | kept hj => exact absurd rfl (hj triggerId nowMs)
  | rotated _ _ _ _ hj => cases hj
  | promoted _ pickedV2 _ rotatedAt hj hv2Picked hatPicked hgrace hv2 hnone hsecret =>
    cases hj
    -- the secret that was picked and the one under the lock are of one rotation, so of one time
    obtain ⟨i, ws, hex, at', hi, hsecretI, hatI⟩ := hpicked pickedV2 hv2Picked
    obtain ⟨j, ws', hex', at'', hj, hsecretJ, hatJ⟩ := hrotated pickedV2 hv2
    rw [htrigger] at hi
    have hsame := hsecrets i j _ _ _ _ _ _ _ _ hi hj (hsecretI.symm.trans hsecretJ)
    rw [hsame, hj] at hi
    obtain ⟨-, -, rfl, rfl⟩ := TriggerJob.writeRotation.inj hi
    rw [hatPicked] at hatI
    obtain rfl := Option.some.inj hatI
    refine ⟨fresh, t', hrow, hrow', hnone, .inr ⟨j, ws', hex', rotatedAt, hj, ?_, hatJ, ?_, by omega⟩⟩
    · rw [hv2, hsecretJ]
    · rw [hsecret, hsecretJ]
  | cleared _ _ hj hobj hv2 hsecret => exact ⟨fresh, t', hrow, hrow', hv2, .inl ⟨hobj, hsecret⟩⟩

/-- One trigger, with notifications. -/
def notifyingTriggers (k : String) : Option Trigger :=
  if k = "t" then
    some
      { workspaceId := "w"
        config := .obj [("notification", .obj [("url", .str "https://example.com")])]
        notificationSecretV2 := none
        notificationRotatedAt := none
        columns := []
        signingSecret := none }
  else none

/-- A rotation, and a promotion a day later. -/
def rotateAndPromote : Bool → TriggerJob
  | false => .writeRotation "t" "w" "0a" 0
  | true => .promoteRotated "t" rotationGraceMs

theorem notifyingTriggers_object (k : String) (t : Trigger) (h : notifyingTriggers k = some t) :
    ObjectConfig t ∧ isPlainRecord (t.config.field "notification") = true ∧
      t.notificationSecretV2 = none := by
  unfold notifyingTriggers at h
  split_ifs at h
  rw [← Option.some.inj h]
  exact ⟨⟨_, rfl, by decide⟩, by decide, rfl⟩

theorem rotateAndPromote_distinct (i : Bool) : (rotateAndPromote i).Distinct := by
  cases i <;> trivial

theorem promoteRotated_after_grace_day :
    ∃ t t', (requestRun (fun key => key) rotateAndPromote notifyingTriggers
        [.look false, .acquire false, .read false, .commit false, .look true, .acquire true,
          .read true]).rows "t" = some t ∧
      (requestRun (fun key => key) rotateAndPromote notifyingTriggers
        ([.look false, .acquire false, .read false, .commit false, .look true, .acquire true,
          .read true] ++ [.commit true])).rows "t" = some t' ∧
      t'.notificationSecretV2 = none ∧
      (((t.config.field "notification").isObject = false ∧ t'.signingSecret = t.signingSecret) ∨
        ∃ i workspaceId hex rotatedAt, rotateAndPromote i = .writeRotation "t" workspaceId hex rotatedAt ∧
          t.notificationSecretV2 = some (newNotificationSigningSecret hex) ∧
          t.notificationRotatedAt = some rotatedAt ∧
          t'.signingSecret.map SecretStore.plaintext = some (newNotificationSigningSecret hex) ∧
          rotatedAt + rotationGraceMs ≤ rotationGraceMs) :=
  promoteRotated_after_grace (fun key => key) rotateAndPromote rotateAndPromote_distinct
    notifyingTriggers (fun k t h => (notifyingTriggers_object k t h).1)
    (fun k t h => (notifyingTriggers_object k t h).2.2)
    (fun i j _ _ _ _ _ _ _ _ hi hj _ => by
      cases i with
      | true => cases hi
      | false =>
        cases j with
        | true => cases hj
        | false => rfl)
    _ true "t" rotationGraceMs rfl (by decide) (by decide)

end Clemvion.Triggers
