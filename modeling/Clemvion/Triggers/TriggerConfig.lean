import Clemvion.Js.Properties
import Clemvion.Library.Locking

/-!
# TriggerConfig — rewriting `trigger.config` under its advisory lock

The reader of `trigger.config` that wants to write it back takes `pg_advisory_xact_lock` of the
trigger, reads the row once more and merges into what it read.  The lock key is a hash, so that two
triggers may share a lock; a cascade deletes rows without asking for it.
-/

namespace Clemvion.Triggers

open Js Library

/-! ## 1. The row -/

/-- A row of `secret_store`, decrypted. -/
structure SecretStore where
  workspaceId : String
  plaintext : String
  deriving DecidableEq

/-- A row of `trigger` without its id, with the one secret that is kept under its own reference. -/
structure Trigger where
  workspaceId : String
  config : Value
  notificationSecretV2 : Option String
  notificationRotatedAt : Option Int
  /-- The other columns. -/
  columns : List (String × Value)
  signingSecret : Option SecretStore
  deriving DecidableEq

def triggerConfigLockPrefix : String := "trigger-config"

def triggerConfigLockKey (triggerId : String) : String := triggerConfigLockPrefix ++ ":" ++ triggerId

/-- `fresh.config ?? {}`. -/
def Trigger.freshConfig (fresh : Trigger) : Value :=
  match fresh.config with
  | .null | .undefined => .obj []
  | config => config

/-- `m.update(Trigger, { id }, { ...columns, config })`: a column that holds `undefined` is left alone,
and `config` is a JSON column. -/
def Trigger.update (fresh : Trigger) (columns : List (String × Value)) (config : Value) : Trigger :=
  { fresh with
    columns := Value.spread fresh.columns (.obj (columns.filter fun column => column.2 ≠ .undefined))
    config := Value.jsonRoundTrip config }

/-! ## 2. Merging -/

def mergeIntoFreshSubKey (freshConfig : Value) (key : String) (patch fallback : List (String × Value)) :
    Value :=
  let current := freshConfig.field key
  let base := if current.isObject then current else .obj fallback
  .obj (Value.setKey (Value.spread [] freshConfig) key
    (.obj (Value.spread (Value.spread [] base) (.obj patch))))

/-- A call of `rewriteTriggerConfigLocked`: its caller has looked at the trigger before, and `merge` may
depend on that too; `none` where it throws. -/
structure TriggerCall where
  triggerId : String
  merge : (trigger : Trigger) → (freshConfig : Value) → (fresh : Trigger) → Option Value
  columns : List (String × Value)

def rewriteTriggerConfigLocked (call : TriggerCall) : Job String Trigger where
  row := call.triggerId
  merge := fun trigger fresh =>
    (call.merge trigger fresh.freshConfig fresh).map fun config => fresh.update call.columns config

/-- What the call returns; `none` where it throws. -/
def returned : Outcome → Option Bool
  | .wrote => some true
  | .missing => some false
  | .declined => none

variable {ι lock : Type} [DecidableEq ι] [DecidableEq lock] (hashtext : String → lock)

/-- The lock of a trigger. -/
def acquireTriggerConfigLock (triggerId : String) : lock := hashtext (triggerConfigLockKey triggerId)

/-- The triggers and the calls after some steps, from triggers that no call has locked yet. -/
def rewriteRun (job : ι → Job String Trigger) (triggers : String → Option Trigger)
    (events : List (LockEvent ι String)) : LockState ι String lock Trigger :=
  lockRun job (acquireTriggerConfigLock hashtext) (.start triggers) events

/-- However the steps of the calls interleave, the triggers end as if every call that returned `true` had
looked and had then rewritten its trigger at once, in one common order, and as if no other call had
written at all; a call that returned `false` has its trigger deleted. -/
theorem rewriteTriggerConfigLocked_serializable (calls : ι → TriggerCall)
    (triggers : String → Option Trigger) (events : List (LockEvent ι String)) :
    let job := fun i => rewriteTriggerConfigLocked (calls i)
    let order := moments job (acquireTriggerConfigLock hashtext) (.start triggers) events
    let final := rewriteRun hashtext job triggers events
    final.rows = (momentRun job ⟨triggers, fun _ => none⟩ order).rows ∧
      (∀ i outcome, final.phase i = .ended outcome → returned outcome = some true →
        order.filter (Moment.isOf i) = [.look i, .rewrite i]) ∧
      (∀ i, (∀ outcome, final.phase i = .ended outcome → returned outcome ≠ some true) →
        .rewrite i ∉ order) ∧
      ∀ i outcome, final.phase i = .ended outcome → returned outcome = some false →
        final.rows (calls i).triggerId = none := by
  intro job order final
  let start : LockState ι String lock Trigger := .start triggers
  have hlocked : Locked job (acquireTriggerConfigLock hashtext) start := locked_start triggers
  refine ⟨(hlocked.run (follows_start triggers) events).rows, fun i outcome hend hreturned => ?_,
    fun i hnot hmem => ?_, fun i outcome hend hreturned => ?_⟩
  · cases outcome with
    | wrote =>
      have hwaiting : start.phase i = .waiting := rfl
      have horder := filter_isOf_of_wrote (by rw [hwaiting]; simp) events hend
      rw [hwaiting] at horder
      exact horder
    | missing => cases hreturned
    | declined => cases hreturned
  · have hwritten : i ∈ written order := List.mem_filterMap.mpr ⟨_, hmem, rfl⟩
    exact hnot .wrote ((wrote_run events i).mpr (.inl hwritten)) rfl
  · cases outcome with
    | wrote => cases hreturned
    | declined => cases hreturned
    | missing => exact (missingGone_start triggers).run events i hend

/-! ## 3. No field is lost -/

/-- A call that lays `patch` over one sub-key of the fresh config. -/
structure SubKeyPatch where
  triggerId : String
  key : String
  patch : List (String × Value)
  fallback : (trigger : Trigger) → List (String × Value)
  columns : List (String × Value)
  distinct : (patch.map Prod.fst).Nodup

def SubKeyPatch.call (p : SubKeyPatch) : TriggerCall where
  triggerId := p.triggerId
  merge := fun trigger freshConfig _ =>
    some (mergeIntoFreshSubKey freshConfig p.key p.patch (p.fallback trigger))
  columns := p.columns

/-- The config is an object that has an object under `key`, which has `w` under `name`. -/
structure HasField (key name : String) (w : Value) (t : Trigger) : Prop where
  held : ∃ fields sub, t.config = .obj fields ∧ (fields.map Prod.fst).Nodup ∧
    fields.lookup key = some (.obj sub) ∧ (sub.map Prod.fst).Nodup ∧ sub.lookup name = some w

variable {key name : String} {v w : Value} {t : Trigger}

theorem HasField.read (h : HasField key name w t) : (t.config.field key).field name = w := by
  obtain ⟨fields, sub, hconfig, -, hkey, -, hname⟩ := h.held
  rw [hconfig, Value.field, hkey, Option.getD_some, Value.field, hname, Option.getD_some]

/-- What is stored once the sub-key has been rebuilt as `sub`. -/
theorem hasField_update {fresh : Trigger} {columns fields sub : List (String × Value)}
    (hfields : (fields.map Prod.fst).Nodup) (hkey : fields.lookup key = some (.obj sub))
    (hsub : (sub.map Prod.fst).Nodup) (hname : sub.lookup name = some v) (hv : v ≠ .undefined) :
    HasField key name (Value.jsonRoundTrip v) (fresh.update columns (.obj fields)) := by
  refine ⟨Value.jsonFields fields, Value.jsonFields sub, rfl, Value.nodup_jsonFields hfields, ?_,
    Value.nodup_jsonFields hsub, ?_⟩
  · rw [Value.lookup_jsonFields hfields, hkey]
    rfl
  · rw [Value.lookup_jsonFields hsub, hname, Option.bind_some, Value.storedProperty, if_neg hv]

/-- The fields of the patch are there afterwards. -/
theorem SubKeyPatch.hasField (p : SubKeyPatch) {trigger fresh t' : Trigger}
    (hname : p.patch.lookup name = some v) (hv : v ≠ .undefined)
    (hmerge : (rewriteTriggerConfigLocked p.call).merge trigger fresh = some t') :
    HasField p.key name (Value.jsonRoundTrip v) t' := by
  rw [← Option.some.inj hmerge]
  show HasField _ _ _ (fresh.update _ (mergeIntoFreshSubKey _ _ _ _))
  refine hasField_update (Value.nodup_setKey Value.nodup_spread_nil) Value.lookup_setKey_self
    (Value.nodup_spread Value.nodup_spread_nil) ?_ hv
  rw [Value.lookup_spread p.distinct, hname, Option.some_or]

/-- A patch of another sub-key, or without the field, leaves the field as it is. -/
theorem SubKeyPatch.keeps_hasField (p : SubKeyPatch) {trigger fresh t' : Trigger}
    (h : HasField key name w fresh) (hjson : Value.jsonRoundTrip w = w) (hw : w ≠ .undefined)
    (hother : p.key = key → p.patch.lookup name = none)
    (hmerge : (rewriteTriggerConfigLocked p.call).merge trigger fresh = some t') :
    HasField key name w t' := by
  obtain ⟨fields, sub, hconfig, hfields, hkey, hsub, hname⟩ := h.held
  have hfresh : fresh.freshConfig = .obj fields := by
    unfold Trigger.freshConfig
    rw [hconfig]
  rw [← Option.some.inj hmerge, ← hjson, hfresh]
  show HasField _ _ _ (fresh.update _ (mergeIntoFreshSubKey _ _ _ _))
  have hspread : (Value.spread [] (.obj fields)).lookup key = some (.obj sub) := by
    rw [Value.lookup_spread hfields, hkey, Option.some_or]
  by_cases hsame : p.key = key
  · -- the sub-key is rebuilt from what was under it
    subst hsame
    refine hasField_update (Value.nodup_setKey Value.nodup_spread_nil) Value.lookup_setKey_self
      (Value.nodup_spread Value.nodup_spread_nil) ?_ hw
    have hcurrent : (Value.obj fields).field p.key = .obj sub := by
      rw [Value.field, hkey, Option.getD_some]
    rw [Value.lookup_spread p.distinct, hother rfl, Option.none_or, hcurrent,
      if_pos (by rfl), Value.lookup_spread hsub, hname, Option.some_or]
  · refine hasField_update (Value.nodup_setKey Value.nodup_spread_nil) ?_ hsub hname hw
    rw [Value.lookup_setKey, if_neg (Ne.symm hsame), hspread]

/-- Once a call has written a field of a sub-key, the trigger has it for as long as it exists, unless a
call that writes later sets that very field: whatever the other calls had read before. -/
theorem mergeIntoFreshSubKey_not_lost (calls : ι → SubKeyPatch)
    (triggers : String → Option Trigger) (before after : List (LockEvent ι String)) (i : ι)
    (name : String) (v : Value) (hname : (calls i).patch.lookup name = some v) (hv : v ≠ .undefined)
    (hwrote :
      let job := fun i => rewriteTriggerConfigLocked (calls i).call
      (rewriteRun hashtext job triggers before).phase i ≠ .ended .wrote ∧
        (rewriteRun hashtext job triggers (before ++ [.commit i])).phase i = .ended .wrote)
    (hlast : ∀ j,
      let job := fun i => rewriteTriggerConfigLocked (calls i).call
      (rewriteRun hashtext job triggers (before ++ .commit i :: after)).phase j = .ended .wrote →
      (rewriteRun hashtext job triggers (before ++ [.commit i])).phase j ≠ .ended .wrote →
      (calls j).triggerId = (calls i).triggerId → (calls j).key = (calls i).key →
        (calls j).patch.lookup name = none) :
    ∀ t, (rewriteRun hashtext (fun i => rewriteTriggerConfigLocked (calls i).call) triggers
        (before ++ .commit i :: after)).rows (calls i).triggerId = some t →
      (t.config.field (calls i).key).field name = Value.jsonRoundTrip v := by
  intro t ht
  let job := fun i => rewriteTriggerConfigLocked (calls i).call
  let moved := rewriteRun hashtext job triggers (before ++ [.commit i])
  have hmoved : moved = lockStep job (acquireTriggerConfigLock hashtext)
      (rewriteRun hashtext job triggers before) (.commit i) := lockRun_append before [.commit i]
  have hend : rewriteRun hashtext job triggers (before ++ .commit i :: after) =
      lockRun job (acquireTriggerConfigLock hashtext) moved after := by
    rw [List.append_cons]
    exact lockRun_append _ after
  -- the step that writes leaves the field in the trigger
  have heffect : Effect job (acquireTriggerConfigLock hashtext) _ _ _ _ :=
    lockStep_effect (s := rewriteRun hashtext job triggers before) (.commit i)
  rw [← hmoved] at heffect
  obtain ⟨first, fresh, t', -, -, hmerge, hrows⟩ := heffect.commit_of_wrote hwrote.1 hwrote.2
  have hset : ∀ k t, moved.rows k = some t → k = (calls i).triggerId →
      HasField (calls i).key name (Value.jsonRoundTrip v) t := by
    rintro k t hrow rfl
    have hself : moved.rows (calls i).triggerId = some t' := by
      rw [hrows]
      exact Function.update_self ..
    rw [← Option.some.inj (hself.symm.trans hrow)]
    exact (calls i).hasField hname hv hmerge
  -- and no later one takes it away
  have hlocked : Locked job (acquireTriggerConfigLock hashtext) moved :=
    (locked_start triggers).locked_run _
  have hkept := hlocked.keeps (Q := fun _ _ => True) hset (fun _ _ _ => trivial)
    (fun _ _ _ => trivial) after fun j first fresh t' hbefore hafter _ hfield hmerge hrow =>
      (calls j).keeps_hasField (hfield hrow) (Value.jsonRoundTrip_idem v) (by simpa using hv)
        (fun hkey => hlast j (by rw [hend]; exact hafter) hbefore hrow hkey) hmerge
  rw [hend] at ht
  exact (hkept.1 _ t ht rfl).read

/-- A new token for the interaction, and new references for the chat channel, of one trigger. -/
def tokenAndChannel : Bool → SubKeyPatch
  | false => ⟨"t", "interaction", [("triggerToken", .str "new")], fun _ => [], [], by decide⟩
  | true => ⟨"t", "chatChannel", [("botTokenRef", .str "ref")], fun _ => [], [], by decide⟩

/-- The token is revoked by a request that had looked at the trigger before the channel was written. -/
theorem mergeIntoFreshSubKey_not_lost_token :
    let triggers := fun k => if k = "t" then some ⟨"w", .obj [], none, none, [], none⟩ else none
    let job := fun i => rewriteTriggerConfigLocked (tokenAndChannel i).call
    let final := rewriteRun (fun key => key) job triggers ([.look false, .look true, .acquire true,
      .read true] ++ .commit true :: [.acquire false, .read false, .commit false])
    (final.rows "t").isSome = true ∧ ∀ t, final.rows "t" = some t →
      (t.config.field "chatChannel").field "botTokenRef" = .str "ref" :=
  ⟨by decide, mergeIntoFreshSubKey_not_lost (fun key => key) tokenAndChannel _ _ _ true "botTokenRef"
    (.str "ref") rfl (by decide) (by decide) (by decide)⟩

end Clemvion.Triggers
