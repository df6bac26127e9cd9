import Clemvion.Js.Properties
import Clemvion.Library.Loop

/-!
# RawConfig — what a request may send as the raw `config` of a trigger

The three typed settings have request fields of their own, the server's own fields under them least of
all may come in by the back door, and no string of the config may be a secret reference.  The search
for such a string walks the config with an explicit stack and reports where it found the first one.
-/

namespace Clemvion.Triggers

open Js Library

/-! ## 1. The check -/

/-- The details of a `400 VALIDATION_ERROR`. -/
structure InvalidField where
  field : String
  message : String
  deriving DecidableEq

def chatChannelHint : String :=
  "채팅 채널은 요청 본문의 chatChannel 로 설정하세요. 봇 토큰은 POST " ++
    "/api/triggers/:id/chat-channel/rotate-bot-token 으로만 바꿉니다."

def notificationHint : String :=
  "알림 서명 시크릿은 POST /api/triggers/:id/notification/rotate-secret 으로만 바꿉니다."

def interactionTokenHint : String :=
  "트리거 단위 토큰은 서버가 발급하고 POST /api/triggers/:id/interaction/revoke-token 으로만 바꿉니다."

def chatChannelBlockedFields : List String :=
  ["botTokenRef", "inboundSigningRef", "inboundSigning", "botToken", "inboundSigningPlaintext"]

/-- Paths of fields that the server manages, each with its hint. -/
def configInternalFields : List (List String × String) :=
  chatChannelBlockedFields.map (fun field => (["chatChannel", field], chatChannelHint)) ++
    [(["notification", "signing", "secretRef"], notificationHint),
      (["interaction", "triggerToken"], interactionTokenHint)]

def hasPath : Value → List String → Bool
  | _, [] => true
  | .obj fields, key :: path =>
    match fields.lookup key with
    | some node => hasPath node path
    | none => false
  | _, _ :: _ => false

def assertConfigCarriesNoInternalFields (config : Value) : Except InvalidField Unit :=
  match configInternalFields.find? fun internal => hasPath config internal.1 with
  | some (path, hint) =>
    let field := "config." ++ ".".intercalate path
    .error ⟨field, field ++ " 는 서버가 관리하는 필드라 config 로 보낼 수 없습니다. " ++ hint⟩
  | none => .ok ()

def rawConfigTypedKeys : List String := ["notification", "interaction", "chatChannel"]

def secretRefPrefix : List Char := "secret://".toList

/-- One pass of the search; the top of the stack is the head of the list. -/
def findSecretRefStep (stack : List (Value × String)) :
    List (Value × String) × Option (Option String) :=
  match stack with
  | [] => ([], some none)
  | (.str s, path) :: rest =>
    if secretRefPrefix.isPrefixOf s.toList then (rest, some (some path)) else (rest, none)
  | (.arr items, path) :: rest =>
    (items.zipIdx.map (fun item => (item.1, path ++ "[" ++ toString item.2 ++ "]")) ++ rest, none)
  | (.obj fields, path) :: rest =>
    (fields.map (fun field => (field.2, path ++ "." ++ field.1)) ++ rest, none)
  | _ :: rest => (rest, none)

mutual

/-- The values in a value, itself included. -/
def nodes : Value → Nat
  | .arr items => nodesOfItems items + 1
  | .obj fields => nodesOfFields fields + 1
  | _ => 1

def nodesOfItems : List Value → Nat
  | [] => 0
  | item :: items => nodes item + nodesOfItems items

def nodesOfFields : List (String × Value) → Nat
  | [] => 0
  | (_, v) :: fields => nodes v + nodesOfFields fields

end

def findSecretRefPath (config : Value) : Option String :=
  (runLoop findSecretRefStep (nodes config + 1) [(config, "config")]).2.join

def assertRawConfigAccepted (config : Value) : Except InvalidField Unit :=
  match config with
  | .obj fields => do
    assertConfigCarriesNoInternalFields config
    match rawConfigTypedKeys.find? fun key => (fields.lookup key).isSome with
    | some key =>
      let field := "config." ++ key
      .error ⟨field, field ++ " 는 config 로 보낼 수 없습니다. 요청 본문의 최상위 " ++ key ++ " 로 보내세요."⟩
    | none =>
      match findSecretRefPath config with
      | some path =>
        .error ⟨path, path ++ " 에 시크릿 참조(secret://…)를 실을 수 없습니다. " ++
          "시크릿 참조는 서버가 만들고 관리합니다."⟩
      | none => .ok ()
  | _ => .ok ()

/-! ## 2. The search is the walk in document order -/

mutual

/-- Where the references are, in document order. -/
def secretRefPaths : Value → String → List String
  | .str s, path => if secretRefPrefix.isPrefixOf s.toList then [path] else []
  | .arr items, path => secretRefPathsOfItems items path 0
  | .obj fields, path => secretRefPathsOfFields fields path
  | _, _ => []

def secretRefPathsOfItems : List Value → String → Nat → List String
  | [], _, _ => []
  | item :: items, path, n =>
    secretRefPaths item (path ++ "[" ++ toString n ++ "]") ++ secretRefPathsOfItems items path (n + 1)

def secretRefPathsOfFields : List (String × Value) → String → List String
  | [], _ => []
  | (key, v) :: fields, path =>
    secretRefPaths v (path ++ "." ++ key) ++ secretRefPathsOfFields fields path

end

variable {path : String} {stack : List (Value × String)} {fuel : Nat}

def nodesOfStack : List (Value × String) → Nat
  | [] => 0
  | (v, _) :: rest => nodes v + nodesOfStack rest

theorem nodesOfStack_append (left right : List (Value × String)) :
    nodesOfStack (left ++ right) = nodesOfStack left + nodesOfStack right := by
  induction left with
  | nil => exact (Nat.zero_add _).symm
  | cons entry left ih =>
    rw [List.cons_append, nodesOfStack, nodesOfStack, ih]
    omega

def pathsOfStack (stack : List (Value × String)) : List String :=
  stack.flatMap fun entry => secretRefPaths entry.1 entry.2

theorem nodesOfStack_items (items : List Value) (path : String) (n : Nat) :
    nodesOfStack ((items.zipIdx n).map fun item => (item.1, path ++ "[" ++ toString item.2 ++ "]")) =
      nodesOfItems items := by
  induction items generalizing n with
  | nil => rfl
  | cons item items ih =>
    rw [List.zipIdx_cons, List.map_cons, nodesOfStack, ih (n + 1)]
    rfl

theorem nodesOfStack_fields (fields : List (String × Value)) (path : String) :
    nodesOfStack (fields.map fun field => (field.2, path ++ "." ++ field.1)) = nodesOfFields fields := by
  induction fields with
  | nil => rfl
  | cons field fields ih =>
    rw [List.map_cons, nodesOfStack, ih]
    rfl

theorem pathsOfStack_items (items : List Value) (path : String) (n : Nat) :
    pathsOfStack ((items.zipIdx n).map fun item => (item.1, path ++ "[" ++ toString item.2 ++ "]")) =
      secretRefPathsOfItems items path n := by
  induction items generalizing n with
  | nil => rfl
  | cons item items ih =>
    have hrest := ih (n + 1)
    unfold pathsOfStack at hrest ⊢
    rw [List.zipIdx_cons, List.map_cons, List.flatMap_cons, hrest]
    rfl

theorem pathsOfStack_fields (fields : List (String × Value)) (path : String) :
    pathsOfStack (fields.map fun field => (field.2, path ++ "." ++ field.1)) =
      secretRefPathsOfFields fields path := by
  induction fields with
  | nil => rfl
  | cons field fields ih =>
    unfold pathsOfStack at ih ⊢
    rw [List.map_cons, List.flatMap_cons, ih]
    rfl

/-- One pass ends with the first path there is, or leaves the paths and spends a node. -/
theorem findSecretRefStep_spec (stack : List (Value × String)) :
    (∃ rest, findSecretRefStep stack = (rest, some (pathsOfStack stack).head?)) ∨
      ∃ rest, findSecretRefStep stack = (rest, none) ∧ pathsOfStack rest = pathsOfStack stack ∧
        nodesOfStack rest < nodesOfStack stack := by
  -- a value without references and without values in it is dropped
  have hleaf : ∀ (v : Value) (path : String) (rest : List (Value × String)),
      secretRefPaths v path = [] → nodes v = 1 →
        pathsOfStack rest = pathsOfStack ((v, path) :: rest) ∧
          nodesOfStack rest < nodesOfStack ((v, path) :: rest) := by
    intro v path rest hpaths hnodes
    unfold pathsOfStack
    rw [List.flatMap_cons, hpaths, nodesOfStack, hnodes]
    exact ⟨rfl, by omega⟩
  match stack with
  | [] => exact .inl ⟨[], rfl⟩
  | (.str s, path) :: rest =>
    unfold findSecretRefStep
    dsimp only
    split_ifs with href
    · refine .inl ⟨rest, ?_⟩
      unfold pathsOfStack
      rw [List.flatMap_cons, secretRefPaths, if_pos href]
      rfl
    · exact .inr ⟨rest, rfl, hleaf _ path rest (by rw [secretRefPaths, if_neg href]) rfl⟩
  | (.arr items, path) :: rest =>
    refine .inr ⟨_, rfl, ?_, ?_⟩
    · unfold pathsOfStack
      rw [List.flatMap_append, List.flatMap_cons]
      exact congrArg (· ++ _) (pathsOfStack_items items path 0)
    · rw [nodesOfStack_append, nodesOfStack_items, nodesOfStack, nodes]
      omega
  | (.obj fields, path) :: rest =>
    refine .inr ⟨_, rfl, ?_, ?_⟩
    · unfold pathsOfStack
      rw [List.flatMap_append, List.flatMap_cons]
      exact congrArg (· ++ _) (pathsOfStack_fields fields path)
    · rw [nodesOfStack_append, nodesOfStack_fields, nodesOfStack, nodes]
      omega
  | (.undefined, path) :: rest | (.null, path) :: rest | (.bool b, path) :: rest
  | (.num n, path) :: rest =>
    exact .inr ⟨rest, rfl, hleaf _ path rest rfl rfl⟩

theorem runLoop_findSecretRefStep (hfuel : nodesOfStack stack < fuel) :
    (runLoop findSecretRefStep fuel stack).2 = some (pathsOfStack stack).head? := by
  induction fuel generalizing stack with
  | zero => omega
  | succ fuel ih =>
    rw [runLoop]
    obtain ⟨rest, hend⟩ | ⟨rest, hnext, hpaths, hnodes⟩ := findSecretRefStep_spec stack
    · rw [hend]
    · rw [hnext]
      dsimp only
      rw [ih (by omega), hpaths]

/-- The search ends, with the first reference in document order. -/
theorem findSecretRefPath_eq (config : Value) :
    findSecretRefPath config = (secretRefPaths config "config").head? := by
  have hfuel : nodesOfStack [(config, "config")] < nodes config + 1 := by
    show nodes config + 0 < nodes config + 1
    omega
  unfold findSecretRefPath
  rw [runLoop_findSecretRefStep hfuel, Option.join_some]
  unfold pathsOfStack
  rw [List.flatMap_cons, List.flatMap_nil, List.append_nil]

/-! ## 3. What is accepted -/

/-- `w` is `v` or somewhere in it. -/
inductive Within (w : Value) : Value → Prop
  | refl : Within w w
  | item {items : List Value} {item : Value} (hmem : item ∈ items) (h : Within w item) :
      Within w (.arr items)
  | field {fields : List (String × Value)} {field : String × Value} (hmem : field ∈ fields)
      (h : Within w field.2) : Within w (.obj fields)

/-- A string that is a secret reference, or means to be one. -/
def isReference (s : String) : Prop := secretRefPrefix.isPrefixOf s.toList = true

mutual

theorem secretRefPaths_eq_nil_iff : ∀ (v : Value) (path : String),
    secretRefPaths v path = [] ↔ ∀ s, Within (.str s) v → ¬isReference s
  | .str s, path => by
    unfold secretRefPaths
    split_ifs with href
    · constructor
      · intro h
        cases h
      · intro h
        exact absurd href (h s .refl)
    · refine ⟨fun _ s' hwithin => ?_, fun _ => rfl⟩
      cases hwithin with
      | refl => exact href
  | .arr items, path => by
    rw [secretRefPaths, secretRefPathsOfItems_eq_nil_iff items path 0]
    constructor
    · intro h s hwithin
      cases hwithin with
      | item hmem hin => exact h _ hmem s hin
    · exact fun h item hmem s hin => h s (.item hmem hin)
  | .obj fields, path => by
    rw [secretRefPaths, secretRefPathsOfFields_eq_nil_iff fields path]
    constructor
    · intro h s hwithin
      cases hwithin with
      | field hmem hin => exact h _ hmem s hin
    · exact fun h field hmem s hin => h s (.field hmem hin)
  | .undefined, path | .null, path | .bool _, path | .num _, path => by
    refine ⟨fun _ s hwithin => ?_, fun _ => rfl⟩
    cases hwithin

theorem secretRefPathsOfItems_eq_nil_iff : ∀ (items : List Value) (path : String) (n : Nat),
    secretRefPathsOfItems items path n = [] ↔
      ∀ item ∈ items, ∀ s, Within (.str s) item → ¬isReference s
  | [], path, n => by simp [secretRefPathsOfItems]
  | item :: items, path, n => by
    rw [secretRefPathsOfItems, List.append_eq_nil_iff, List.forall_mem_cons,
      secretRefPaths_eq_nil_iff item, secretRefPathsOfItems_eq_nil_iff items path (n + 1)]

theorem secretRefPathsOfFields_eq_nil_iff : ∀ (fields : List (String × Value)) (path : String),
    secretRefPathsOfFields fields path = [] ↔
      ∀ field ∈ fields, ∀ s, Within (.str s) field.2 → ¬isReference s
  | [], path => by simp [secretRefPathsOfFields]
  | (key, v) :: fields, path => by
    rw [secretRefPathsOfFields, List.append_eq_nil_iff, List.forall_mem_cons,
      secretRefPaths_eq_nil_iff v, secretRefPathsOfFields_eq_nil_iff fields path]

end

theorem hasPath_lookup {fields : List (String × Value)} {key : String} {rest : List String}
    (h : hasPath (.obj fields) (key :: rest) = true) : (fields.lookup key).isSome = true := by
  unfold hasPath at h
  cases hlookup : fields.lookup key with
  | none =>
    rw [hlookup] at h
    cases h
  | some node => rfl

/-- Every field of the server's own is under a typed key. -/
theorem configInternalFields_typed : ∀ internal ∈ configInternalFields,
    ∃ key ∈ rawConfigTypedKeys, ∃ rest, internal.1 = key :: rest := by
  intro internal hmem
  obtain hmem | hmem := List.mem_append.mp hmem
  · obtain ⟨field, -, rfl⟩ := List.mem_map.mp hmem
    exact ⟨"chatChannel", by decide, [field], rfl⟩
  · obtain rfl | hmem := List.mem_cons.mp hmem
    · exact ⟨"notification", by decide, ["signing", "secretRef"], rfl⟩
    · obtain rfl := List.mem_singleton.mp hmem
      exact ⟨"interaction", by decide, ["triggerToken"], rfl⟩

/-- Without typed keys the fields of the server's own are no question. -/
theorem assertConfigCarriesNoInternalFields_ok {fields : List (String × Value)}
    (h : ∀ key ∈ rawConfigTypedKeys, fields.lookup key = none) :
    assertConfigCarriesNoInternalFields (.obj fields) = .ok () := by
  have hnone : (configInternalFields.find? fun internal => hasPath (.obj fields) internal.1) = none := by
    rw [List.find?_eq_none]
    intro internal hmem hpath
    obtain ⟨key, hkey, rest, heq⟩ := configInternalFields_typed internal hmem
    rw [heq] at hpath
    have hpresent := hasPath_lookup hpath
    rw [h key hkey] at hpresent
    cases hpresent
  unfold assertConfigCarriesNoInternalFields
  rw [hnone]

/-- An object is accepted if and only if it has none of the typed keys and no string at any depth that
starts like a secret reference; where only such a string is wrong, the rejection names the path of the
first one in document order. -/
theorem assertRawConfigAccepted_iff (fields : List (String × Value)) :
    (assertRawConfigAccepted (.obj fields) = .ok () ↔
      (∀ key ∈ rawConfigTypedKeys, fields.lookup key = none) ∧
        ∀ s, Within (.str s) (.obj fields) → ¬isReference s) ∧
    ((∀ key ∈ rawConfigTypedKeys, fields.lookup key = none) →
      ∀ e, assertRawConfigAccepted (.obj fields) = .error e →
        (secretRefPaths (.obj fields) "config").head? = some e.field) := by
  by_cases htyped : ∀ key ∈ rawConfigTypedKeys, fields.lookup key = none
  · have hnone : (rawConfigTypedKeys.find? fun key => (fields.lookup key).isSome) = none := by
      rw [List.find?_eq_none]
      intro key hkey
      rw [htyped key hkey]
      simp
    unfold assertRawConfigAccepted
    dsimp only
    rw [assertConfigCarriesNoInternalFields_ok htyped, hnone, findSecretRefPath_eq,
      ← secretRefPaths_eq_nil_iff (.obj fields) "config"]
    cases secretRefPaths (.obj fields) "config" with
    | nil => exact ⟨⟨fun _ => ⟨htyped, rfl⟩, fun _ => rfl⟩, fun _ e h => nomatch h⟩
    | cons path paths =>
      refine ⟨⟨fun h => ?_, fun h => ?_⟩, fun _ e h => ?_⟩
      · cases h
      · cases h.2
      · rw [← Except.error.inj h]
        rfl
  · refine ⟨⟨fun hok => ?_, fun h => absurd h.1 htyped⟩, fun h => absurd h htyped⟩
    exfalso
    have hsome : ∃ key, (rawConfigTypedKeys.find? fun key => (fields.lookup key).isSome) = some key := by
      by_contra hnone
      refine htyped fun key hkey => ?_
      have habsent := List.find?_eq_none.mp (Option.eq_none_iff_forall_ne_some.mpr fun k hk =>
        hnone ⟨k, hk⟩) key hkey
      exact Option.not_isSome_iff_eq_none.mp habsent
    obtain ⟨key, hkey⟩ := hsome
    unfold assertRawConfigAccepted at hok
    dsimp only at hok
    rw [hkey] at hok
    cases hinternal : assertConfigCarriesNoInternalFields (.obj fields) with
    | error e =>
      rw [hinternal] at hok
      cases hok
    | ok u =>
      rw [hinternal] at hok
      cases hok

end Clemvion.Triggers
