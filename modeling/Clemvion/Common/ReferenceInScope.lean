/-!
# ReferenceInScope — what a refused request throws

The exceptions of the services, and the 400 for ids that lead out of the workspace or the workflow.
-/

namespace Clemvion.Common

/-- One reference to refuse: an element of `details`. -/
structure InvalidReference where
  field : String
  message : String
  deriving DecidableEq, Repr

/-- A `queryFailed` is a constraint of the database. -/
inductive ServiceException
  | notFound (code message : String)
  | badRequest (code : Option String) (message : String) (details : List (InvalidReference × String))
  | conflict (code message : String)
  | queryFailed (constraint : String)
  deriving DecidableEq, Repr

def validationError (message : String) : ServiceException :=
  .badRequest (some "VALIDATION_ERROR") message []

def throwInvalidReferences (items : List InvalidReference) : ServiceException :=
  .badRequest (some "VALIDATION_ERROR") ("; ".intercalate (items.map InvalidReference.message))
    (items.map fun item => (item, "INVALID_FIELD"))

/-- `if (c) throw e`. -/
def refuseIf (c : Bool) (e : ServiceException) : Except ServiceException Unit :=
  if c then .error e else .ok ()

theorem refuseIf_eq_ok_iff {c : Bool} {e : ServiceException} {u : Unit} :
    refuseIf c e = .ok u ↔ c = false := by
  cases c with
  | true => exact iff_of_false (fun h => nomatch h) fun h => nomatch h
  | false => exact iff_of_true rfl rfl

/-- A request that is refused with 400. -/
def IsBadRequest {β : Type} (result : Except ServiceException β) : Prop :=
  ∃ code message details, result = .error (.badRequest code message details)

theorem not_isBadRequest_ok {β : Type} (v : β) : ¬IsBadRequest (.ok v) := by
  rintro ⟨_, _, _, h⟩
  cases h

/-- A refused step ends the request, and an accepted one hands its result on. -/
theorem bind_eq_ok_iff {ε α β : Type} {x : Except ε α} {f : α → Except ε β} {b : β} :
    x >>= f = .ok b ↔ ∃ a, x = .ok a ∧ f a = .ok b := by
  constructor
  · intro h
    cases x with
    | error e => cases h
    | ok a => exact ⟨a, rfl, h⟩
  · rintro ⟨a, rfl, h⟩
    exact h

end Clemvion.Common
