import Clemvion.Egress.WebsocketService

/-!
# LlmCallsIndependence — the external fanout does not depend on `llmCalls`

Deleting the debug field commutes with every pass up to the one that strips it, and after the
masking by value that pass reaches every level that is left.
-/

open Clemvion.Js

namespace Clemvion.Egress

/-! ## 1. Deleting a debug field at every depth -/

mutual

def deleteStripped : Value → Value
  | .arr items => .arr (deleteStrippedItems items)
  | .obj fields => .obj (deleteStrippedFields fields)
  | v => v

def deleteStrippedItems : List Value → List Value
  | [] => []
  | item :: items => deleteStripped item :: deleteStrippedItems items

def deleteStrippedFields : List (String × Value) → List (String × Value)
  | [] => []
  | (key, v) :: fields =>
    if key ∈ externalStrippedFields then deleteStrippedFields fields
    else (key, deleteStripped v) :: deleteStrippedFields fields

end

theorem deleteStrippedItems_eq_map (items : List Value) :
    deleteStrippedItems items = items.map deleteStripped := by
  induction items with
  | nil => rfl
  | cons item items ih => rw [List.map_cons, ← ih]; rfl

theorem deleteStrippedFields_cons (field : String × Value) (fields : List (String × Value)) :
    deleteStrippedFields (field :: fields) =
      if field.1 ∈ externalStrippedFields then deleteStrippedFields fields
      else (field.1, deleteStripped field.2) :: deleteStrippedFields fields := rfl

theorem deleteStrippedFields_eq (fields : List (String × Value)) :
    deleteStrippedFields fields =
      (fields.filter fun field => field.1 ∉ externalStrippedFields).map fun field =>
        (field.1, deleteStripped field.2) := by
  induction fields with
  | nil => rfl
  | cons field fields ih =>
    rw [deleteStrippedFields_cons, List.filter_cons]
    by_cases hkey : field.1 ∈ externalStrippedFields
    · rw [if_pos hkey, ih]
      simp [hkey]
    · rw [if_neg hkey, ih]
      simp [hkey]

/-- A walk that treats the properties one by one commutes with the deletion when it does so on
each of them that stays. -/
theorem deleteStrippedFields_map {f : String → Value → Value} {fields : List (String × Value)}
    (h : ∀ field ∈ fields, field.1 ∉ externalStrippedFields →
      f field.1 (deleteStripped field.2) = deleteStripped (f field.1 field.2)) :
    (deleteStrippedFields fields).map (fun field => (field.1, f field.1 field.2)) =
      deleteStrippedFields (fields.map fun field => (field.1, f field.1 field.2)) := by
  induction fields with
  | nil => rfl
  | cons field fields ih =>
    have hrest := ih fun field' hmem => h field' (List.mem_cons_of_mem field hmem)
    rw [List.map_cons, deleteStrippedFields_cons, deleteStrippedFields_cons]
    by_cases hkey : field.1 ∈ externalStrippedFields
    · rw [if_pos hkey, if_pos hkey]
      exact hrest
    · rw [if_neg hkey, if_neg hkey, List.map_cons, hrest, h field List.mem_cons_self hkey]

@[simp] theorem isObject_deleteStripped (v : Value) : (deleteStripped v).isObject = v.isObject := by
  cases v <;> rfl

/-- What is no container is left alone. -/
theorem deleteStripped_of_leaf {v : Value} (h : v.isObject = false) : deleteStripped v = v := by
  cases v with
  | arr items => cases h
  | obj fields => cases h
  | _ => rfl

/-! ## 2. The deletion commutes with the passes -/

theorem sanitizeLevels_deleteStripped (levels : Nat) (v : Value) :
    sanitizeLevels levels (deleteStripped v) = deleteStripped (sanitizeLevels levels v) := by
  induction levels generalizing v with
  | zero =>
    unfold sanitizeLevels
    rw [isObject_deleteStripped]
    split
    · rfl
    · rfl
  | succ levels ih =>
    cases v with
    | arr items =>
      show Value.arr ((deleteStrippedItems items).map _) = .arr (deleteStrippedItems (items.map _))
      rw [deleteStrippedItems_eq_map, deleteStrippedItems_eq_map, List.map_map, List.map_map]
      congr 1
      apply List.map_congr_left
      intro item _
      exact ih item
    | obj fields =>
      show Value.obj ((deleteStrippedFields fields).map _) = .obj (deleteStrippedFields _)
      congr 1
      apply deleteStrippedFields_map (f := fun key v =>
        if wsCredentialKeyPattern.matchesWhole key then .str keyMaskMarker else sanitizeLevels levels v)
      intro field _ _
      split
      · rfl
      · exact ih field.2
    | _ => rfl

theorem holdsValue_deleteStripped (v : Value) : holdsValue (deleteStripped v) = holdsValue v := by
  cases v with
  | arr items => rfl
  | obj fields => rfl
  | _ => rfl

theorem redactProperty_deleteStripped {redact : Value → Value} {key : String} (v : Value)
    (hkey : key ∉ externalStrippedFields)
    (h : redact (deleteStripped v) = deleteStripped (redact v)) :
    redactProperty externalStrippedFields redact key (deleteStripped v) =
      deleteStripped (redactProperty externalStrippedFields redact key v) := by
  unfold redactProperty
  rw [if_neg hkey, if_neg hkey, holdsValue_deleteStripped]
  split
  · cases v with
    | arr items => rfl
    | obj fields => rfl
    | str s =>
      show (if isMaskedMarker (.str s) then Value.str s else _) = deleteStripped (if isMaskedMarker (.str s) then Value.str s else _)
      split <;> rfl
    | _ => rfl
  · exact h

theorem deepRedactCore_deleteStripped (levels : Nat) (v : Value) :
    deepRedactCore levels externalStrippedFields (deleteStripped v) =
      deleteStripped (deepRedactCore levels externalStrippedFields v) := by
  induction levels generalizing v with
  | zero => cases v <;> rfl
  | succ levels ih =>
    cases v with
    | arr items =>
      show Value.arr ((deleteStrippedItems items).map _) = .arr (deleteStrippedItems (items.map _))
      rw [deleteStrippedItems_eq_map, deleteStrippedItems_eq_map, List.map_map, List.map_map]
      congr 1
      apply List.map_congr_left
      intro item _
      exact ih item
    | obj fields =>
      show Value.obj ((deleteStrippedFields fields).map _) = .obj (deleteStrippedFields _)
      congr 1
      apply deleteStrippedFields_map
      intro field _ hkey
      exact redactProperty_deleteStripped field.2 hkey (ih field.2)
    | _ => rfl

/-! ## 3. After the masking, the stripping reaches everything -/

theorem stripDeep_of_leaf (levels : Nat) {v : Value} (h : v.isObject = false) :
    stripDeep levels v = v := by
  cases v with
  | arr items => cases h
  | obj fields => cases h
  | _ => cases levels <;> rfl

theorem isObject_deepRedactCore_zero (preserveKeys : List String) (v : Value) :
    (deepRedactCore 0 preserveKeys v).isObject = false := by
  cases v <;> rfl

/-- The masking leaves no container below its own limit, which lies above that of the
stripping. -/
theorem stripDeep_deepRedactCore (levels : Nat) (v : Value) :
    stripDeep (levels + 1) (deepRedactCore levels externalStrippedFields v) =
      deleteStripped (deepRedactCore levels externalStrippedFields v) := by
  induction levels generalizing v with
  | zero =>
    have hleaf := isObject_deepRedactCore_zero externalStrippedFields v
    rw [stripDeep_of_leaf _ hleaf, deleteStripped_of_leaf hleaf]
  | succ levels ih =>
    cases v with
    | arr items =>
      show Value.arr ((items.map _).map _) = .arr (deleteStrippedItems (items.map _))
      rw [deleteStrippedItems_eq_map, List.map_map, List.map_map]
      congr 1
      apply List.map_congr_left
      intro item _
      exact ih item
    | obj fields =>
      show Value.obj (((fields.map _).filter _).map _) = .obj (deleteStrippedFields (fields.map _))
      rw [deleteStrippedFields_eq]
      congr 1
      apply List.map_congr_left
      intro field hmem
      obtain ⟨hfield, hkey⟩ := List.mem_filter.mp hmem
      obtain ⟨source, -, rfl⟩ := List.mem_map.mp hfield
      have hkey' : source.1 ∉ externalStrippedFields := of_decide_eq_true hkey
      apply congrArg (Prod.mk source.1)
      show stripDeep (levels + 1) (redactProperty _ _ source.1 source.2) =
        deleteStripped (redactProperty _ _ source.1 source.2)
      unfold redactProperty
      rw [if_neg hkey']
      split
      · split
        · -- a marker of an earlier layer is a string
          cases hv : source.2 with
          | str s => rfl
          | _ => simp_all [isMaskedMarker]
        · rfl
      · exact ih source.2
    | _ => rfl

/-! ## 4. The deletion commutes with the wrapping -/

theorem lookup_deleteStrippedFields {key : String} (hkey : key ∉ externalStrippedFields)
    (fields : List (String × Value)) :
    (deleteStrippedFields fields).lookup key = (fields.lookup key).map deleteStripped := by
  induction fields with
  | nil => rfl
  | cons field fields ih =>
    rw [deleteStrippedFields_cons, Value.lookup_cons_ite]
    by_cases heq : key = field.1
    · rw [if_neg (heq ▸ hkey), if_pos heq, Value.lookup_cons_ite, if_pos heq]
      rfl
    · rw [if_neg heq, ← ih]
      split
      · rfl
      · rw [Value.lookup_cons_ite, if_neg heq]

theorem deleteStrippedFields_append (fields fields' : List (String × Value)) :
    deleteStrippedFields (fields ++ fields') =
      deleteStrippedFields fields ++ deleteStrippedFields fields' := by
  rw [deleteStrippedFields_eq, deleteStrippedFields_eq, deleteStrippedFields_eq,
    List.filter_append, List.map_append]

theorem deleteStrippedFields_setKey (fields : List (String × Value)) (key : String) (v : Value) :
    deleteStrippedFields (Value.setKey fields key v) =
      if key ∈ externalStrippedFields then deleteStrippedFields fields
      else Value.setKey (deleteStrippedFields fields) key (deleteStripped v) := by
  have hreplace : ∀ rest : List (String × Value),
      deleteStrippedFields (rest.map fun field => if field.1 = key then (key, v) else field) =
        if key ∈ externalStrippedFields then deleteStrippedFields rest
        else (deleteStrippedFields rest).map fun field =>
          if field.1 = key then (key, deleteStripped v) else field := by
    intro rest
    induction rest with
    | nil => split <;> rfl
    | cons field rest ih =>
      rw [List.map_cons, deleteStrippedFields_cons, deleteStrippedFields_cons, ih]
      by_cases heq : field.1 = key
      · by_cases hkey : key ∈ externalStrippedFields <;> simp [heq, hkey]
      · by_cases hkey : key ∈ externalStrippedFields <;>
          by_cases hfield : field.1 ∈ externalStrippedFields <;> simp [heq, hkey, hfield]
  have happend : deleteStrippedFields [(key, v)] =
      if key ∈ externalStrippedFields then [] else [(key, deleteStripped v)] := rfl
  unfold Value.setKey
  by_cases hkey : key ∈ externalStrippedFields
  · rw [if_pos hkey]
    split
    · rw [hreplace, if_pos hkey]
    · rw [deleteStrippedFields_append, happend, if_pos hkey, List.append_nil]
  · rw [if_neg hkey, lookup_deleteStrippedFields hkey, Option.isSome_map]
    split
    · rw [hreplace, if_neg hkey]
    · rw [deleteStrippedFields_append, happend, if_neg hkey]

theorem toString_not_stripped (index : Nat) : toString index ∉ externalStrippedFields := by
  intro hmem
  have hname : index.repr = "llmCalls" := List.mem_singleton.mp hmem
  have hdigit : 'l' ∈ Nat.toDigits 10 index := by
    rw [← Nat.toList_repr, hname]
    decide
  exact absurd (JsonText.isDigit_of_mem_toDigits hdigit) (by decide)

/-- The properties that a spread copies from a list are named by their index. -/
theorem deleteStrippedFields_indexed (items : List Value) (start : Nat) :
    deleteStrippedFields ((items.zipIdx start).map fun item => (toString item.2, item.1)) =
      ((items.map deleteStripped).zipIdx start).map fun item => (toString item.2, item.1) := by
  induction items generalizing start with
  | nil => rfl
  | cons item items ih =>
    rw [List.zipIdx_cons, List.map_cons, deleteStrippedFields_cons, if_neg (toString_not_stripped _),
      ih]
    rfl

theorem deleteStrippedFields_spread (fields : List (String × Value)) {v : Value}
    (h : v.isObject = true) :
    deleteStrippedFields (Value.spread fields v) =
      Value.spread (deleteStrippedFields fields) (deleteStripped v) := by
  have hfold : ∀ own acc : List (String × Value),
      deleteStrippedFields (own.foldl (fun acc field => Value.setKey acc field.1 field.2) acc) =
        (deleteStrippedFields own).foldl (fun acc field => Value.setKey acc field.1 field.2)
          (deleteStrippedFields acc) := by
    intro own
    induction own with
    | nil => exact fun _ => rfl
    | cons field own ih =>
      intro acc
      rw [List.foldl_cons, ih, deleteStrippedFields_setKey, deleteStrippedFields_cons]
      split <;> rfl
  cases v with
  | arr items =>
    have hown : deleteStrippedFields (Value.ownFields (.arr items)) =
        Value.ownFields (deleteStripped (.arr items)) := by
      show deleteStrippedFields (items.zipIdx.map _) = (deleteStrippedItems items).zipIdx.map _
      rw [deleteStrippedItems_eq_map]
      exact deleteStrippedFields_indexed items 0
    unfold Value.spread
    rw [hfold, hown]
  | obj fields' => exact hfold fields' fields
  | _ => cases h

/-- The envelope around what is sanitized without debug fields is the envelope without them. -/
theorem wrapPayload_deleteStripped {ids : List (String × Value)} {seq timestamp : Value}
    (hids : deleteStrippedFields ids = ids) (hseq : deleteStripped seq = seq)
    (htimestamp : deleteStripped timestamp = timestamp) (sanitizedPayload : Value) :
    wrapPayload ids seq timestamp (deleteStripped sanitizedPayload) =
      deleteStrippedFields (wrapPayload ids seq timestamp sanitizedPayload) := by
  have hkeys : "seq" ∉ externalStrippedFields ∧ "timestamp" ∉ externalStrippedFields := by decide
  unfold wrapPayload
  dsimp only
  rw [isObject_deleteStripped, deleteStrippedFields_setKey, if_neg hkeys.2,
    deleteStrippedFields_setKey, if_neg hkeys.1, hseq, htimestamp]
  by_cases hobject : sanitizedPayload.isObject = true
  · rw [if_pos hobject, if_pos hobject, deleteStrippedFields_spread ids hobject, hids]
  · rw [if_neg hobject, if_neg hobject, deleteStrippedFields_spread ids rfl, hids]
    rfl

/-! ## 5. Independence -/

/-- What the fanout is given is the masked envelope without debug fields at any depth. -/
theorem stripExternalOnlyFields_maskWireEnvelope (wireEnvelope : List (String × Value)) :
    stripExternalOnlyFields (maskWireEnvelope wireEnvelope) maxSanitizeDepth =
      deleteStripped (maskWireEnvelope wireEnvelope) :=
  stripDeep_deepRedactCore maxRedactDepth (.obj wireEnvelope)

/-- The fanout is a function of what is left of the payload. -/
theorem emit_fanout {payloads : Nat → Value} (cache : SanitizeCache payloads)
    {ids : List (String × Value)} {seq timestamp : Value}
    (hids : deleteStrippedFields ids = ids) (hseq : deleteStripped seq = seq)
    (htimestamp : deleteStripped timestamp = timestamp)
    (context : Option ExecutionRoutingContext) (payload : Nat) :
    (emit cache ids context seq timestamp payload).fanout =
      attachRoutingContext context (allowlistFanoutNodeOutput (envelopeFields
        (maskWireEnvelope (wrapPayload ids seq timestamp
          (sanitizePayloadForWs (deleteStripped (payloads payload))))))) := by
  have hsanitized : sanitizePayloadForWs (deleteStripped (payloads payload)) =
      deleteStripped (sanitizePayloadForWs (payloads payload)) :=
    sanitizeLevels_deleteStripped _ _
  have hmasked : ∀ fields, maskWireEnvelope (deleteStrippedFields fields) =
      deleteStripped (maskWireEnvelope fields) :=
    fun fields => deepRedactCore_deleteStripped maxRedactDepth (.obj fields)
  show toFanoutEnvelope context (maskWireEnvelope (wrapPayload ids seq timestamp
    (cache.sanitize payload).1)) = _
  unfold toFanoutEnvelope
  rw [cache.sanitize_fst, stripExternalOnlyFields_maskWireEnvelope, hsanitized,
    wrapPayload_deleteStripped hids hseq htimestamp, hmasked]

/-- Two payloads that differ in `llmCalls` only, at whatever depth, leave the system alike,
whatever was emitted and cached before. -/
theorem external_egress_ignores_llmCalls {payloads payloads' : Nat → Value}
    (cache : SanitizeCache payloads) (cache' : SanitizeCache payloads') (executionId : String)
    (context : Option ExecutionRoutingContext) (seq : Int) (timestamp : String)
    {payload payload' : Nat}
    (h : deleteStripped (payloads payload) = deleteStripped (payloads' payload')) :
    (emitExecutionEvent cache executionId context seq timestamp payload).fanout =
      (emitExecutionEvent cache' executionId context seq timestamp payload').fanout := by
  unfold emitExecutionEvent
  rw [emit_fanout cache rfl rfl rfl, emit_fanout cache' rfl rfl rfl, h]

def turnPayload (llmCalls : List Value) : Value :=
  .obj [("nodeOutput", .obj [("meta", .obj [("llmCalls", .arr llmCalls), ("turns", .arr [])])])]

theorem turnPayload_egress :
    (emitExecutionEvent (.empty fun _ => turnPayload [.str "prompt"]) "e" none 1 "t" 0).fanout =
      (emitExecutionEvent (.empty fun _ => turnPayload []) "e" none 1 "t" 0).fanout :=
  external_egress_ignores_llmCalls _ _ "e" none 1 "t" rfl

end Clemvion.Egress
