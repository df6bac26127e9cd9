import Clemvion.ChatChannel.ChannelConversation

/-!
# ConversationMapping — what late events do to a conversation that was linked anew

The handling of an execution that ends compares and sets, and is safe wherever it is interrupted.
The handling of a form that waits reads and then writes: it is safe as long as nothing re-points
the conversation in between, and otherwise it points it back to its own execution.
-/

namespace Clemvion.ChatChannel

open Clemvion.Js Clemvion.Js.JsonText Clemvion.Library Program

/-! ## 1. States that are written -/

/-- The keys are distinct, and what is not `undefined` has a text. -/
structure Writable (state : State) : Prop where
  nodup : (state.map Prod.fst).Nodup
  hasText : ∀ key v, (key, v) ∈ state → v ≠ .undefined → HasText v

section

variable {state : State} {key now executionId raw : String} {v : Value}

theorem Writable.obj (h : Writable state) : HasText (.obj state) := by
  constructor
  · show FieldsAreJson (Value.jsonFields state)
    rw [fieldsAreJson_iff]
    intro field hfield
    obtain ⟨v, hv, hne, heq⟩ := Value.of_mem_jsonFields hfield
    rw [heq]
    exact (h.hasText field.1 v hv hne).1
  · refine ⟨Value.nodup_jsonFields h.nodup, fieldsAreDistinct_iff.mpr fun field hfield => ?_⟩
    obtain ⟨v, hv, hne, heq⟩ := Value.of_mem_jsonFields hfield
    rw [heq]
    exact (h.hasText field.1 v hv hne).2

/-- The execution that the text of a state points to. -/
theorem executionIdOf_text (h : Writable state) :
    executionIdOf (text state) = string? ((Value.obj state).field "executionId") := by
  unfold executionIdOf text
  rw [parse_stringify_of_hasText h.obj, Option.bind_some, Value.field_jsonRoundTrip h.nodup]
  cases (Value.obj state).field "executionId" with
  | num n => cases n <;> rfl
  | _ => rfl

theorem hasText_str (s : String) : HasText (.str s) := ⟨trivial, trivial⟩

theorem hasText_null : HasText .null := ⟨trivial, trivial⟩

theorem Writable.setKey (h : Writable state) (hv : v ≠ .undefined → HasText v) :
    Writable (Value.setKey state key v) where
  nodup := Value.nodup_setKey h.nodup
  hasText key' w hmem hne := by
    obtain hold | ⟨-, rfl⟩ := Value.mem_setKey hmem
    · exact h.hasText key' w hold hne
    · exact hv hne

theorem Writable.of_parse (h : parse raw = some (.obj state)) : Writable state := by
  obtain ⟨hjson, hkeys⟩ := parse_spec h
  refine ⟨hkeys.1, fun key v hmem _ => ?_⟩
  have hv : IsJson v := fieldsAreJson_iff.mp hjson (key, v) hmem
  unfold HasText
  rw [jsonRoundTrip_of_isJson v hv]
  exact ⟨hv, fieldsAreDistinct_iff.mp hkeys.2 (key, v) hmem⟩

theorem stateOf_eq_some : stateOf executionId v = some state ↔
    v = .obj state ∧ (Value.obj state).field "executionId" = .str executionId := by
  cases v with
  | obj fields =>
    show (if _ then some fields else none) = some state ↔ _
    split_ifs with h
    · constructor
      · intro heq
        cases heq
        exact ⟨rfl, h⟩
      · rintro ⟨heq, -⟩
        cases heq
        rfl
    · constructor
      · intro heq
        cases heq
      · rintro ⟨heq, hfield⟩
        cases heq
        exact absurd hfield h
  | _ =>
    constructor
    · intro heq
      cases heq
    · rintro ⟨heq, -⟩
      cases heq

theorem executionIdOf_of_stateOf (h : (parse raw).bind (stateOf executionId) = some state) :
    executionIdOf raw = some executionId ∧ Writable state ∧
      (Value.obj state).field "executionId" = .str executionId := by
  obtain ⟨v, hparse, hstate⟩ := Option.bind_eq_some_iff.mp h
  obtain ⟨rfl, hfield⟩ := stateOf_eq_some.mp hstate
  refine ⟨?_, Writable.of_parse hparse, hfield⟩
  unfold executionIdOf
  rw [hparse, Option.bind_some, hfield]
  rfl

/-- What a request reads is the text itself, unless there is none. -/
theorem given_eq_some {value : Option String} (h : given value = some raw) : value = some raw :=
  (Option.filter_eq_some_iff.mp h).1

theorem Writable.nil : Writable [] where
  nodup := List.nodup_nil
  hasText _ _ hmem := nomatch hmem

theorem Writable.cons (hkey : key ∉ state.map Prod.fst) (hv : HasText v) (h : Writable state) :
    Writable ((key, v) :: state) where
  nodup := List.nodup_cons.mpr ⟨hkey, h.nodup⟩
  hasText key' w hmem hne := by
    obtain heq | hmem := List.mem_cons.mp hmem
    · cases heq
      exact hv
    · exact h.hasText key' w hmem hne

theorem hasText_pendingFormModal (nodeId : String) (modal : FormModal) :
    HasText (pendingFormModal nodeId modal) := by
  unfold pendingFormModal
  cases modal.title with
  | none =>
    exact Writable.obj (Writable.cons (by simp) (hasText_str nodeId)
      (Writable.cons (by simp) modal.hasText Writable.nil))
  | some title =>
    exact Writable.obj (Writable.cons (by simp) (hasText_str nodeId)
      (Writable.cons (by simp) modal.hasText
        (Writable.cons (by simp) (hasText_str title) Writable.nil)))

theorem hasText_initialFormState (nodeId : String) : HasText (initialFormState nodeId) := by
  have hzero : HasText (.num (.finite 0)) := ⟨⟨0, by decide⟩, trivial⟩
  exact Writable.obj (Writable.cons (by simp) (hasText_str nodeId)
    (Writable.cons (by simp) hzero (Writable.cons (by simp) Writable.nil.obj Writable.nil)))

theorem writable_withForm (form : WaitingForm) (h : Writable state) :
    Writable (withForm form now state) := by
  have hnone : Value.undefined ≠ .undefined → HasText .undefined := fun hne => absurd rfl hne
  unfold withForm
  refine Writable.setKey ?_ fun _ => hasText_str now
  cases form.modal with
  | some modal => exact (h.setKey fun _ => hasText_pendingFormModal form.nodeId modal).setKey hnone
  | none => exact (h.setKey hnone).setKey fun _ => hasText_initialFormState form.nodeId

theorem executionId_withForm (form : WaitingForm) :
    (Value.obj (withForm form now state)).field "executionId" =
      (Value.obj state).field "executionId" := by
  unfold withForm
  cases form.modal <;>
    rw [Value.field_setKey, if_neg (by decide), Value.field_setKey, if_neg (by decide),
      Value.field_setKey, if_neg (by decide)]

theorem writable_cleared (h : Writable state) : Writable (cleared now state) :=
  (h.setKey fun _ => hasText_null).setKey fun _ => hasText_str now

theorem executionId_cleared : (Value.obj (cleared now state)).field "executionId" = .null := by
  unfold cleared
  rw [Value.field_setKey, if_neg (by decide), Value.field_setKey, if_pos rfl]

theorem hasText_startedAt (value : Option String) : HasText (startedAt (lookup value) now) := by
  unfold startedAt
  split
  · exact hasText_str now
  · exact hasText_str now
  · rename_i hundef _
    unfold lookup at hundef ⊢
    -- a property that is there is one of an object that was parsed
    cases hparsed : (given value).bind parse with
    | none =>
      rw [hparsed] at hundef
      exact absurd rfl hundef
    | some v =>
      rw [hparsed] at hundef
      obtain ⟨raw, -, hraw⟩ := Option.bind_eq_some_iff.mp hparsed
      cases v with
      | obj fields =>
        exact (Writable.of_parse hraw).hasText "startedAt" _ (Value.mem_of_field rfl hundef) hundef
      | _ => exact absurd rfl hundef

theorem writable_freshState (channelUserKey : String) (value : Option String) :
    Writable (freshState executionId channelUserKey (lookup value) now) :=
  Writable.cons (by simp) (hasText_str executionId) <|
    Writable.cons (by simp) (hasText_str "default") <|
    Writable.cons (by simp) (hasText_str channelUserKey) <|
    Writable.cons (by simp) (hasText_startedAt value) <|
    Writable.cons (by simp) (hasText_str now) Writable.nil

end

/-! ## 2. What the requests send -/

/-- A form writes a state that points to its execution, and so does a link; a compare-and-set
takes one that points to its execution to one that points to none. -/
def Shape : Request → Statement → Prop
  | _, .get => True
  | .formWaiting executionId _, .set (.form writer _) state =>
    writer = executionId ∧ Writable state ∧
      (Value.obj state).field "executionId" = .str executionId
  | .startExecution executionId _, .set (.link writer) state =>
    writer = executionId ∧ Writable state ∧
      (Value.obj state).field "executionId" = .str executionId
  | .terminal executionId, .compareAndSet raw state =>
    executionIdOf raw = some executionId ∧ Writable state ∧
      (Value.obj state).field "executionId" = .null
  | _, _ => False

section

variable {executionId channelUserKey : String} {form : WaitingForm} {state : State}

theorem stateOf_lookup {value : Option String}
    (h : (lookup value).bind (stateOf executionId) = some state) :
    value.bind executionIdOf = some executionId ∧ Writable state ∧
      (Value.obj state).field "executionId" = .str executionId := by
  unfold lookup at h
  rw [Option.bind_assoc] at h
  obtain ⟨raw, hraw, hstate⟩ := Option.bind_eq_some_iff.mp h
  rw [given_eq_some hraw, Option.bind_some]
  exact executionIdOf_of_stateOf hstate

theorem only_formWaiting :
    (formWaiting executionId form).Only (Shape (.formWaiting executionId form)) := by
  refine Only.bind (only_send trivial) fun seen => ?_
  cases h : (lookup seen.raw).bind (stateOf executionId) with
  | none => exact only_done
  | some state =>
    obtain ⟨-, hwritable, hfield⟩ := stateOf_lookup h
    exact only_send
      ⟨rfl, writable_withForm form hwritable, (executionId_withForm form).trans hfield⟩

theorem only_clearAttempts (attempts : Nat) :
    (clearAttempts executionId attempts).Only (Shape (.terminal executionId)) := by
  induction attempts with
  | zero => exact only_done
  | succ attempts ih =>
    refine Only.bind (only_send trivial) fun seen => ?_
    cases given seen.raw with
    | none => exact only_done
    | some raw =>
      cases h : (parse raw).bind (stateOf executionId) with
      | none =>
        simp only [h]
        exact only_done
      | some state =>
        obtain ⟨hid, hwritable, -⟩ := executionIdOf_of_stateOf h
        simp only [h]
        refine Only.bind (only_send ⟨hid, writable_cleared hwritable, executionId_cleared⟩) ?_
        intro swapped
        cases swapped with
        | true => exact only_done
        | false => exact ih

theorem only_startExecution : (startExecution executionId channelUserKey).Only
    (Shape (.startExecution executionId channelUserKey)) := by
  refine Only.bind (only_send trivial) fun seen => ?_
  exact only_send ⟨rfl, writable_freshState channelUserKey seen.raw, rfl⟩

theorem only_program (r : Request) : (program r).Only (Shape r) := by
  cases r with
  | formWaiting executionId form => exact only_formWaiting
  | terminal executionId => exact Only.bind (only_clearAttempts _) fun _ => only_done
  | startExecution executionId channelUserKey => exact only_startExecution

end

/-! ## 3. What a write leaves -/

section

variable {r : Request} {q : Statement} {s : Store} {executionId : String} {seen : Nat}
  {state : State} {raw : String}

theorem pointsTo_written (h : s.value = some (text state)) (hstate : Writable state) :
    s.PointsTo executionId ↔
      string? ((Value.obj state).field "executionId") = some executionId := by
  unfold Store.PointsTo
  rw [h, Option.bind_some, executionIdOf_text hstate]

theorem pointsTo_link {writer : String} (hstate : Writable state)
    (hfield : (Value.obj state).field "executionId" = .str writer) :
    (Statement.write s (.set (.link writer) state)).PointsTo executionId ↔ writer = executionId := by
  rw [pointsTo_written rfl hstate, hfield]
  exact Option.some_inj

theorem pointsTo_form {writer : String} (hstate : Writable state)
    (hfield : (Value.obj state).field "executionId" = .str writer) :
    (Statement.write s (.set (.form writer seen) state)).PointsTo executionId ↔
      writer = executionId := by
  rw [pointsTo_written rfl hstate, hfield]
  exact Option.some_inj

theorem write_compareAndSet_of_ne (h : s.value ≠ some raw) :
    Statement.write s (.compareAndSet raw state) = s := if_neg h

theorem write_compareAndSet (h : s.value = some raw) :
    Statement.write s (.compareAndSet raw state) =
      { s with value := some (text state), repoints := s.repoints + 1 } := if_pos h

theorem not_pointsTo_swapped (h : s.value = some raw) (hstate : Writable state)
    (hfield : (Value.obj state).field "executionId" = .null) (executionId : String) :
    ¬ (Statement.write s (.compareAndSet raw state)).PointsTo executionId := by
  rw [write_compareAndSet h, pointsTo_written rfl hstate, hfield]
  exact fun heq => nomatch heq

/-! ## 4. The form state stays with its execution -/

/-- A form state that is stored is stored under the execution it is of, or under none. -/
def FormKept (s : Store) : Prop :=
  ∀ executionId pointed, s.formOwner = some executionId → s.PointsTo pointed → pointed = executionId

theorem FormKept.write (h : FormKept s) (hshape : Shape r q) : FormKept (q.write s) := by
  intro executionId pointed howner hpoints
  cases q with
  | get => exact h executionId pointed howner hpoints
  | set writer state =>
    cases writer with
    | form writer seen =>
      cases r with
      | formWaiting _ form =>
        obtain ⟨rfl, hstate, hfield⟩ := hshape
        have howned : writer = executionId := Option.some_inj.mp howner
        rw [← (pointsTo_form hstate hfield).mp hpoints, howned]
      | _ => exact hshape.elim
    | link writer => cases howner
  | compareAndSet raw state =>
    cases r with
    | terminal _ =>
      obtain ⟨-, hstate, hfield⟩ := hshape
      by_cases hraw : s.value = some raw
      · exact absurd hpoints (not_pointsTo_swapped hraw hstate hfield _)
      · rw [write_compareAndSet_of_ne hraw] at howner hpoints
        exact h executionId pointed howner hpoints
    | _ => exact hshape.elim

/-- Any statement may be run at any time. -/
def anyTime (_ : Request) (_ : Statement) (_ : Store) : Prop := True

/-- Every statement has the shape of its request, and no form state changes hands. -/
def formOutline : Outline Statement Request Store Empty where
  Inv := FormKept
  later _ _ := True
  pre r q _ := Shape r q
  claim _ := none
  owed _ _ := False

theorem formOutline_sound : formOutline.Sound server anyTime where
  refl _ := trivial
  trans _ _ _ _ _ := trivial
  keeps r q now s h hshape _ := by
    show FormKept (q.exec now s).2
    rw [q.exec_snd]
    exact h.write hshape
  proceeds _ _ _ _ _ _ _ := trivial
  undisturbed _ _ _ _ _ _ _ _ _ hshape _ := hshape

theorem formOutline_starts (r : Request) (s : Store) (_ : FormKept s) :
    formOutline.Proves server anyTime r (server.program r) formOutline.Ends none s s := by
  have htriple : formOutline.Triple server anyTime r (fun _ => True) (program r) fun _ _ => True :=
    Outline.triple_of_only (fun _ _ => rfl) (fun _ _ hshape => hshape)
      (fun _ _ _ _ _ _ _ => ⟨fun c => (nomatch c), fun c => (nomatch c)⟩) (fun _ _ _ h => h)
      formOutline_sound (only_program r)
  exact htriple.proves trivial

theorem sends_anyTime (w : World) (e : Event String Request) : Sends anyTime w e := by
  cases e with
  | submit r => trivial
  | advance n now => exact fun _ _ => trivial

/-- However the requests are interleaved, no form state is stored under another execution. -/
theorem formKept_run {w : World} (hidle : w.Idle) (h : FormKept w.store)
    (events : List (Event String Request)) : FormKept (server.run w events).store :=
  ((Outline.holds_of_idle hidle h fun _ hc => hc).run formOutline_sound formOutline_starts
    (Server.EachStep.of_forall sends_anyTime events)).inv

/-! ## 5. The conversation stays with its execution -/

/-- A statement of an event changes the stored state only if it points to the execution of the
event. -/
def Respects (r : Request) (q : Statement) (s : Store) : Prop :=
  ∀ executionId ∈ r.eventOf, (q.write s).value ≠ s.value → s.PointsTo executionId

instance (r : Request) (q : Statement) (s : Store) : Decidable (Respects r q s) :=
  inferInstanceAs (Decidable (∀ executionId ∈ r.eventOf, _ → _))

/-- A conversation is linked to an execution that has just been started. -/
def Fresh (_ : Request) (q : Statement) (s : Store) : Prop :=
  match q with
  | .set (.link executionId) _ => executionId ∉ s.linked
  | _ => True

instance (r : Request) (s : Store) : (q : Statement) → Decidable (Fresh r q s)
  | .get | .compareAndSet .. | .set (.form ..) _ => isTrue trivial
  | .set (.link executionId) _ => inferInstanceAs (Decidable (executionId ∉ s.linked))

/-- Between its lookup and its upsert a form is overtaken by no link and no compare-and-set. -/
def NotOvertaken (_ : Request) (q : Statement) (s : Store) : Prop :=
  match q with
  | .set (.form _ seen) _ => s.repoints = seen
  | _ => True

instance (r : Request) (s : Store) : (q : Statement) → Decidable (NotOvertaken r q s)
  | .get | .compareAndSet .. | .set (.link _) _ => isTrue trivial
  | .set (.form _ seen) _ => inferInstanceAs (Decidable (s.repoints = seen))

/-- The conversation points to an execution it has been linked to. -/
def Linked (s : Store) : Prop := ∀ executionId, s.PointsTo executionId → executionId ∈ s.linked

/-- A form that waits for its upsert has been overtaken or else has the conversation still point
to its execution. -/
def Timely (s : Store) : Statement → Prop
  | .set (.form executionId seen) _ =>
    seen ≤ s.repoints ∧ executionId ∈ s.linked ∧ (s.PointsTo executionId ↔ s.repoints = seen)
  | _ => True

def InTime (r : Request) (q : Statement) (s : Store) : Prop := NotOvertaken r q s ∧ Fresh r q s

theorem Linked.write (h : Linked s) (hshape : Shape r q) (htimely : Timely s q)
    (hok : NotOvertaken r q s) : Linked (q.write s) := by
  intro executionId hpoints
  cases q with
  | get => exact h executionId hpoints
  | set writer state =>
    cases writer with
    | form writer seen =>
      cases r with
      | formWaiting _ form =>
        obtain ⟨rfl, hstate, hfield⟩ := hshape
        rw [← (pointsTo_form hstate hfield).mp hpoints]
        exact htimely.2.1
      | _ => exact hshape.elim
    | link writer =>
      cases r with
      | startExecution _ channelUserKey =>
        obtain ⟨rfl, hstate, hfield⟩ := hshape
        rw [← (pointsTo_link hstate hfield).mp hpoints]
        exact List.mem_cons_self
      | _ => exact hshape.elim
  | compareAndSet raw state =>
    cases r with
    | terminal _ =>
      obtain ⟨-, hstate, hfield⟩ := hshape
      by_cases hraw : s.value = some raw
      · exact absurd hpoints (not_pointsTo_swapped hraw hstate hfield _)
      · rw [write_compareAndSet_of_ne hraw] at hpoints ⊢
        exact h executionId hpoints
    | _ => exact hshape.elim

/-- A link or a compare-and-set that swaps overtakes the forms that wait; a form in time leaves
the conversation where it is. -/
theorem Timely.write {q' : Statement} (h : Timely s q') (hshape : Shape r q) (htimely : Timely s q)
    (hok : InTime r q s) : Timely (q.write s) q' := by
  cases q' with
  | get => trivial
  | compareAndSet raw' state' => trivial
  | set writer' state' =>
    cases writer' with
    | link _ => trivial
    | form executionId seen' =>
      obtain ⟨hseen, hlinked, hpoints⟩ := h
      cases q with
      | get => exact ⟨hseen, hlinked, hpoints⟩
      | set writer state =>
        cases writer with
        | form writer seen =>
          cases r with
          | formWaiting _ form =>
            obtain ⟨rfl, hstate, hfield⟩ := hshape
            -- the writer is the execution that the conversation points to
            have hwriter : s.PointsTo writer := htimely.2.2.mpr hok.1
            refine ⟨hseen, hlinked, ?_⟩
            rw [pointsTo_form hstate hfield, show (Statement.write s _).repoints = s.repoints from rfl,
              ← hpoints]
            constructor
            · rintro rfl
              exact hwriter
            · exact fun h' => Option.some_inj.mp (hwriter.symm.trans h')
          | _ => exact hshape.elim
        | link writer =>
          cases r with
          | startExecution _ channelUserKey =>
            obtain ⟨rfl, hstate, hfield⟩ := hshape
            have hfresh : writer ∉ s.linked := hok.2
            refine ⟨Nat.le_succ_of_le hseen, List.mem_cons_of_mem _ hlinked, ?_⟩
            rw [pointsTo_link hstate hfield]
            constructor
            · rintro rfl
              exact absurd hlinked hfresh
            · intro heq
              exact absurd (show s.repoints + 1 = seen' from heq) (by omega)
          | _ => exact hshape.elim
      | compareAndSet raw state =>
        cases r with
        | terminal _ =>
          obtain ⟨-, hstate, hfield⟩ := hshape
          by_cases hraw : s.value = some raw
          · have hgone := not_pointsTo_swapped hraw hstate hfield executionId
            rw [write_compareAndSet hraw] at hgone ⊢
            refine ⟨Nat.le_succ_of_le hseen, hlinked, iff_of_false hgone ?_⟩
            intro heq
            exact absurd (show s.repoints + 1 = seen' from heq) (by omega)
          · rw [write_compareAndSet_of_ne hraw]
            exact ⟨hseen, hlinked, hpoints⟩
        | _ => exact hshape.elim

/-- The statements as before, and every form that waits is timely. -/
def mappingOutline : Outline Statement Request Store Empty where
  Inv := Linked
  later _ _ := True
  pre r q s := Shape r q ∧ Timely s q
  claim _ := none
  owed _ _ := False

theorem mappingOutline_sound : mappingOutline.Sound server InTime where
  refl _ := trivial
  trans _ _ _ _ _ := trivial
  keeps r q now s h hpre hok := by
    show Linked (q.exec now s).2
    rw [q.exec_snd]
    exact h.write hpre.1 hpre.2 hok.1
  proceeds _ _ _ _ _ _ _ := trivial
  undisturbed r q now s r' q' _ hpre hok hpre' _ := by
    show Shape r' q' ∧ Timely (q.exec now s).2 q'
    rw [q.exec_snd]
    exact ⟨hpre'.1, hpre'.2.write hpre.1 hpre.2 hok⟩

theorem handsOn_none (s s' : Store) : mappingOutline.HandsOn none s s' none where
  fresh c := nomatch c
  owes c := nomatch c

/-- What only clears or links waits for nothing. -/
theorem Shape.timely (h : Shape r q) (hr : ∀ executionId form, r ≠ .formWaiting executionId form) :
    Timely s q := by
  cases q with
  | set writer state =>
    cases writer with
    | link _ => trivial
    | form _ _ =>
      cases r with
      | formWaiting executionId form => exact absurd rfl (hr executionId form)
      | _ => exact h.elim
  | _ => trivial

theorem triple_formWaiting {form : WaitingForm} :
    mappingOutline.Triple server InTime (.formWaiting executionId form) (fun _ => True)
      (formWaiting executionId form) fun _ _ => True := by
  have hget : mappingOutline.Triple server InTime (.formWaiting executionId form) (fun _ => True)
      (send (Q := Statement) .get)
      fun seen s => s.value = seen.raw ∧ s.repoints = seen.repoints ∧ Linked s :=
    Outline.triple_send (O := mappingOutline) rfl (fun _ _ => ⟨trivial, trivial⟩)
      (fun _ _ _ _ _ => handsOn_none _ _) fun _ _ _ _ _ hlinked _ _ => ⟨rfl, rfl, hlinked⟩
  refine hget.bind fun seen => ?_
  cases h : (lookup seen.raw).bind (stateOf executionId) with
  | none => exact Outline.triple_done fun _ _ _ _ => trivial
  | some state =>
    obtain ⟨hid, hwritable, hfield⟩ := stateOf_lookup h
    refine Outline.triple_send rfl ?_ (fun _ _ _ _ _ => handsOn_none _ _)
      fun _ _ _ _ _ _ _ _ => trivial
    rintro s ⟨hvalue, hrepoints, hlinked⟩
    have hpoints : s.PointsTo executionId := by
      unfold Store.PointsTo
      rw [hvalue, hid]
    exact ⟨⟨rfl, writable_withForm form hwritable, (executionId_withForm form).trans hfield⟩,
      Nat.le_of_eq hrepoints.symm, hlinked _ hpoints, iff_of_true hpoints hrepoints⟩

theorem mappingOutline_starts (r : Request) (s : Store) (_ : Linked s) :
    mappingOutline.Proves server InTime r (server.program r) mappingOutline.Ends none s s := by
  have hother : (∀ executionId form, r ≠ .formWaiting executionId form) →
      mappingOutline.Triple server InTime r (fun _ => True) (program r) fun _ _ => True :=
    fun hr => Outline.triple_of_only (O := mappingOutline) (fun _ _ => rfl)
      (fun _ _ hshape => ⟨hshape, hshape.timely hr⟩) (fun _ _ _ _ _ _ _ => handsOn_none _ _) (fun _ _ _ h => h) mappingOutline_sound
      (only_program r)
  cases r with
  | formWaiting executionId form => exact triple_formWaiting.proves trivial
  | _ => exact (hother fun _ _ heq => nomatch heq).proves trivial

/-- Where a form waits in time, respecting others and not being overtaken are the same. -/
theorem respects_iff (hshape : Shape r q) (htimely : Timely s q) :
    Respects r q s ↔ NotOvertaken r q s := by
  cases q with
  | get => exact iff_of_true (fun _ _ hne => absurd rfl hne) trivial
  | set writer state =>
    cases writer with
    | form writer seen =>
      cases r with
      | formWaiting executionId form =>
        obtain ⟨rfl, hstate, hfield⟩ := hshape
        have hpoints := htimely.2.2
        refine ⟨fun hrespects => ?_, fun hok e he _ => ?_⟩
        · by_contra hovertaken
          have hnot : ¬ s.PointsTo writer := fun h' => hovertaken (hpoints.mp h')
          refine hnot (hrespects writer rfl fun heq => hnot ?_)
          -- what is written points to the writer, so that it would have done so before
          have hwritten : (Statement.write s (.set (.form writer seen) state)).PointsTo writer :=
            (pointsTo_form hstate hfield).mpr rfl
          unfold Store.PointsTo at hwritten ⊢
          rwa [heq] at hwritten
        · rw [← Option.some_inj.mp he]
          exact hpoints.mpr hok
      | _ => exact hshape.elim
    | link writer =>
      cases r with
      | startExecution executionId channelUserKey => exact iff_of_true (fun _ he => nomatch he) trivial
      | _ => exact hshape.elim
  | compareAndSet raw state =>
    cases r with
    | terminal executionId =>
      refine iff_of_true (fun e he hchanged => ?_) trivial
      have hraw : s.value = some raw := by
        by_contra hne
        rw [write_compareAndSet_of_ne hne] at hchanged
        exact hchanged rfl
      unfold Store.PointsTo
      rw [hraw, Option.bind_some, hshape.1, Option.some_inj.mp he]
    | _ => exact hshape.elim

/-- **The conversation mapping.** In every run in which the conversation is linked only to new
executions, each event changes the stored state only while it points to its execution, and no form
state is stored under another execution, exactly if no form is overtaken. -/
theorem respects_iff_notOvertaken {w : World} {events : List (Event String Request)}
    (hidle : w.Idle) (hlinked : Linked w.store) (hkept : FormKept w.store)
    (hfresh : server.EachStep (Sends Fresh) w events) :
    (server.EachStep (Sends Respects) w events ∧
        ∀ before after, events = before ++ after → FormKept (server.run w before).store) ↔
      server.EachStep (Sends NotOvertaken) w events := by
  have hrespects : server.EachStep (Sends Respects) w events ↔
      server.EachStep (Sends NotOvertaken) w events :=
    Server.EachStep.iff_of_keeps
      (fun w e (h : mappingOutline.Holds server InTime w) _ => Sends.congr fun n call hcall =>
        respects_iff (h.pre n call hcall).1 (h.pre n call hcall).2)
      (fun w e h hfresh hok => h.step mappingOutline_sound mappingOutline_starts (hok.and hfresh))
      hfresh (Outline.holds_of_idle hidle hlinked fun _ hc => hc)
  rw [hrespects]
  exact and_iff_left fun before _ _ => formKept_run hidle hkept before

end

/-! ## 6. The race -/

def emptyForm (nodeId : String) : WaitingForm := ⟨nodeId, none⟩

/-- A conversation that points to `old`. -/
def linkedToOld : World where
  store :=
    { value := some "\x7b\"executionId\":\"old\"\x7d"
      repoints := 0
      linked := ["old"]
      formOwner := none }
  calls := []

theorem linkedToOld_idle : linkedToOld.Idle := fun _ hcall => nomatch hcall

theorem linkedToOld_linked : Linked linkedToOld.store := by
  intro executionId hpoints
  have hold : linkedToOld.store.PointsTo "old" := by decide +kernel
  rw [Option.some_inj.mp (hpoints.symm.trans hold)]
  exact List.mem_singleton.mpr rfl

theorem linkedToOld_formKept : FormKept linkedToOld.store := fun _ _ howner => nomatch howner

/-- A form of `old` is stored before the conversation is linked to `new`, and `old` ends after. -/
def formThenStart : List (Event String Request) :=
  [.submit (.formWaiting "old" (emptyForm "node")), .advance 0 "1", .advance 0 "2",
    .submit (.startExecution "new" "user"), .advance 1 "3", .submit (.terminal "old"),
    .advance 2 "4", .advance 1 "5", .advance 2 "6", .advance 2 "7"]

theorem respects_formThenStart : server.EachStep (Sends Fresh) linkedToOld formThenStart ∧
    server.EachStep (Sends Respects) linkedToOld formThenStart :=
  have hfresh : server.EachStep (Sends Fresh) linkedToOld formThenStart := by decide +kernel
  ⟨hfresh, ((respects_iff_notOvertaken linkedToOld_idle linkedToOld_linked linkedToOld_formKept
    hfresh).mpr (by decide +kernel)).1⟩

/-- The conversation is linked to `new` between the lookup and the upsert of a form of `old`. -/
def startInsideForm : List (Event String Request) :=
  [.submit (.formWaiting "old" (emptyForm "node")), .submit (.startExecution "new" "user"),
    .advance 0 "1", .advance 1 "2", .advance 1 "3", .advance 0 "4"]

/-- The late form of `old` takes the conversation from `new`. -/
theorem not_respects_startInsideForm :
    (linkedToOld.Idle ∧ Linked linkedToOld.store ∧ FormKept linkedToOld.store ∧
      server.EachStep (Sends Fresh) linkedToOld startInsideForm) ∧
    ¬ server.EachStep (Sends Respects) linkedToOld startInsideForm ∧
      (server.run linkedToOld startInsideForm).store.PointsTo "old" :=
  ⟨⟨linkedToOld_idle, linkedToOld_linked, linkedToOld_formKept, by decide +kernel⟩,
    by decide +kernel, by decide +kernel⟩

end Clemvion.ChatChannel
