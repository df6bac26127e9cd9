import Clemvion.Workspaces.Requests

/-!
# Ownership — who owns a team workspace

A team workspace has one member with role owner, and its `ownerId` names that member's user.
Every statement changes the owners in one of a few ways, or leaves them; `createTeam` owes its
workspace an owner between its two saves.
-/

namespace Clemvion.Workspaces

open Clemvion.Library Program Service

/-! ## 1. Owners -/

/-- The type and the `ownerId` of a workspace. -/
def ownership (db : Database) (id : Id) : Option (WorkspaceType × Id) :=
  (db.findWorkspace id).map fun ws => (ws.type, ws.ownerId)

structure IsOwner (db : Database) (id : Id) (m : WorkspaceMember) : Prop where
  mem : m ∈ db.members.values
  workspace : m.workspaceId = id
  role : m.role = .owner

/-- Exactly one member has role owner, and it is the user's. -/
def SoleOwner (db : Database) (id user : Id) : Prop :=
  ∃ m, IsOwner db id m ∧ m.userId = user ∧ ∀ m', IsOwner db id m' → m' = m

instance (db : Database) (id user : Id) : Decidable (SoleOwner db id user) :=
  decidable_of_iff (∃ m ∈ db.members.values, (m.workspaceId = id ∧ m.role = .owner) ∧
      m.userId = user ∧ ∀ m' ∈ db.members.values, m'.workspaceId = id ∧ m'.role = .owner → m' = m) <| by
    constructor
    · rintro ⟨m, hm, ⟨hin, hrole⟩, huser, honly⟩
      exact ⟨m, ⟨hm, hin, hrole⟩, huser, fun m' h => honly m' h.mem ⟨h.workspace, h.role⟩⟩
    · rintro ⟨m, ⟨hm, hin, hrole⟩, huser, honly⟩
      exact ⟨m, hm, ⟨hin, hrole⟩, huser, fun m' hm' h => honly m' ⟨hm', h.1, h.2⟩⟩

/-- Every team workspace is owned by the user it names, and by no other. -/
def Owned (db : Database) : Prop :=
  ∀ ws ∈ db.workspaces.values, ws.type = .team → SoleOwner db ws.id ws.ownerId

instance (db : Database) : Decidable (Owned db) :=
  inferInstanceAs (Decidable (∀ ws ∈ db.workspaces.values, ws.type = .team →
    SoleOwner db ws.id ws.ownerId))

/-- The user is the sole owner of the team workspace, and the one it names. -/
def OwnedBy (db : Database) (id user : Id) : Prop :=
  ownership db id = some (.team, user) ∧ SoleOwner db id user

/-- If there is a team workspace under this id, it is owned by the user it names. -/
def Right (db : Database) (id : Id) : Prop :=
  ∀ user, ownership db id = some (.team, user) → SoleOwner db id user

def Memberless (db : Database) (id : Id) : Prop := ∀ m ∈ db.members.values, m.workspaceId ≠ id

/-- All ids in use were drawn. -/
structure Numbered (db : Database) : Prop where
  workspaces : ∀ ws ∈ db.workspaces.values, ws.id < db.drawn
  members : ∀ m ∈ db.members.values, m.id < db.drawn
  memberships : ∀ m ∈ db.members.values, m.workspaceId < db.drawn

/-- A workspace whose creation is over, whether it is still there or not. -/
structure Established (db : Database) (id : Id) : Prop where
  drawn : id < db.drawn
  right : Right db id

/-- A team workspace between the two saves of its creation. -/
structure Awaiting (db : Database) (id user : Id) : Prop where
  named : ownership db id = some (.team, user)
  memberless : Memberless db id

/-- What holds throughout: a team that is not owned as it should be has no members yet, and
invitations are to established workspaces. -/
structure Orderly (db : Database) : Prop where
  numbered : Numbered db
  settled : ∀ id, Right db id ∨ Memberless db id
  invited : ∀ i ∈ db.invitations.values, Established db i.workspaceId

/-! ## 2. What a statement does to the owners -/

/-- What the statement `q` of request `r` can have done to a workspace and its owners. -/
inductive Change (r : Request) (q : Statement) (db db' : Database) (id : Id) : Prop
  | same (hws : ownership db' id = ownership db id)
      (howners : ∀ m, IsOwner db' id m ↔ IsOwner db id m)
  | founded (user : Id) (name : String) (hq : q = .insertTeam user name) (hid : id = db.drawn)
  | crowned (user : Id) (hbefore : Awaiting db id user) (hafter : OwnedBy db' id user)
  | handed (old new : Id) (hr : r.requester = some old) (hbefore : OwnedBy db id old)
      (hafter : OwnedBy db' id new)
  | deleted (m : WorkspaceMember) (hr : r.requester = some m.userId) (hbefore : IsOwner db id m)
      (hafter : ownership db' id = none)
  /-- Owners may leave where there is no team. -/
  | noTeam (hteam : ∀ user, ownership db id ≠ some (.team, user))
      (hws : ownership db' id = ownership db id)

/-- What a statement does, as far as the outline is concerned. -/
structure Effect (r : Request) (q : Statement) (db db' : Database) : Prop where
  change : ∀ id, Change r q db db' id
  drawn : db.drawn ≤ db'.drawn
  numbered : Numbered db'
  /-- Only the owner comes to a workspace that has no members yet. -/
  joined : ∀ id, Memberless db id → Memberless db' id ∨ Established db id ∨
    ∃ user, q = .insertMember id user .owner
  /-- The owner of a new workspace is never turned away. -/
  crowned : ∀ id user, q = .insertMember id user .owner → Right db' id
  invited : ∀ i ∈ db'.invitations.values,
    (∃ i₀ ∈ db.invitations.values, i₀.workspaceId = i.workspaceId) ∨ Established db i.workspaceId

section

variable {r : Request} {q : Statement} {db db' : Database} {id user : Id} {m : WorkspaceMember}

theorem ownership_of_mem {ws : Workspace} (h : ws ∈ db.workspaces.values) :
    ownership db ws.id = some (ws.type, ws.ownerId) := by
  have hfind : db.findWorkspace ws.id = some ws := KeyedMap.get?_eq_some_iff.mpr ⟨h, rfl⟩
  unfold ownership
  rw [hfind]
  rfl

theorem ownership_eq_some {type : WorkspaceType} (h : ownership db id = some (type, user)) :
    ∃ ws ∈ db.workspaces.values, ws.id = id ∧ ws.type = type ∧ ws.ownerId = user := by
  unfold ownership at h
  cases hfind : db.findWorkspace id with
  | none =>
    rw [hfind] at h
    cases h
  | some ws =>
    rw [hfind] at h
    cases h
    obtain ⟨hmem, hid⟩ := KeyedMap.get?_eq_some_iff.mp hfind
    exact ⟨ws, hmem, hid, rfl, rfl⟩

theorem owned_iff : Owned db ↔ ∀ id, Right db id := by
  constructor
  · intro h id user hid
    obtain ⟨ws, hmem, rfl, hteam, rfl⟩ := ownership_eq_some hid
    exact h ws hmem hteam
  · intro h ws hmem hteam
    apply h
    rw [ownership_of_mem hmem, hteam]

theorem Numbered.lt_of_ownership {type : WorkspaceType} (h : Numbered db)
    (hid : ownership db id = some (type, user)) : id < db.drawn := by
  obtain ⟨ws, hmem, rfl, -, -⟩ := ownership_eq_some hid
  exact h.workspaces ws hmem

theorem Numbered.ownership_drawn (h : Numbered db) : ownership db db.drawn = none := by
  cases hid : ownership db db.drawn with
  | none => rfl
  | some row => exact absurd (h.lt_of_ownership hid) (Nat.lt_irrefl _)

theorem Numbered.memberless (h : Numbered db) : Memberless db db.drawn :=
  fun m hm => Nat.ne_of_lt (h.memberships m hm)

theorem SoleOwner.unique (h : SoleOwner db id user) (hm : IsOwner db id m) : m.userId = user := by
  obtain ⟨m', -, hm', honly⟩ := h
  rw [honly m hm, hm']

theorem Memberless.not_isOwner (h : Memberless db id) : ¬ IsOwner db id m :=
  fun hm => h m hm.mem hm.workspace

theorem SoleOwner.not_memberless (h : SoleOwner db id user) : ¬ Memberless db id := by
  obtain ⟨m, hm, -, -⟩ := h
  exact fun hnone => hnone.not_isOwner hm

theorem Awaiting.not_right (h : Awaiting db id user) : ¬ Right db id :=
  fun hright => (hright user h.named).not_memberless h.memberless

theorem OwnedBy.right (h : OwnedBy db id user) : Right db id := by
  intro user' hid
  rw [h.1] at hid
  cases hid
  exact h.2

theorem right_of_none (h : ownership db id = none) : Right db id := by
  intro user hid
  rw [h] at hid
  cases hid

/-- Owners that are the same give the same sole owner. -/
theorem SoleOwner.congr (howners : ∀ m, IsOwner db' id m ↔ IsOwner db id m) :
    SoleOwner db' id user ↔ SoleOwner db id user := by
  unfold SoleOwner
  simp only [howners]

theorem Right.congr (hws : ownership db' id = ownership db id)
    (howners : ∀ m, IsOwner db' id m ↔ IsOwner db id m) : Right db' id ↔ Right db id := by
  unfold Right
  simp only [hws, SoleOwner.congr howners]

/-- The type of a workspace never changes. -/
theorem Change.type_eq (h : Change r q db db' id) (hid : id < db.drawn) {type : WorkspaceType}
    (hafter : ownership db' id = some (type, user)) : ∃ u, ownership db id = some (type, u) := by
  cases h with
  | same hws howners => exact ⟨user, by rw [← hws, hafter]⟩
  | founded _ _ _ hnew => exact absurd hnew (Nat.ne_of_lt hid)
  | crowned user' hbefore hcrowned =>
    rw [hcrowned.1] at hafter
    cases hafter
    exact ⟨user, hbefore.named⟩
  | handed old new hr hbefore hhanded =>
    rw [hhanded.1] at hafter
    cases hafter
    exact ⟨old, hbefore.1⟩
  | deleted m hr hbefore hgone =>
    rw [hgone] at hafter
    cases hafter
  | noTeam hteam hws => exact ⟨user, by rw [← hws, hafter]⟩

/-- A workspace that is owned as it should be stays so. -/
theorem Change.right (h : Change r q db db' id) (hid : id ≠ db.drawn) (hright : Right db id) :
    Right db' id := by
  cases h with
  | same hws howners => exact (Right.congr hws howners).mpr hright
  | founded _ _ _ hnew => exact absurd hnew hid
  | crowned user hbefore hafter => exact absurd hright hbefore.not_right
  | handed old new hr hbefore hafter => exact hafter.right
  | deleted m hr hbefore hafter => exact right_of_none hafter
  | noTeam hteam hws =>
    intro user hafter
    rw [hws] at hafter
    exact absurd hafter (hteam user)

/-- Nobody but the owner changes who owns a workspace. -/
theorem Change.ownedBy (h : Change r q db db' id) (hnumbered : Numbered db)
    (hr : r.requester ≠ some user) (howned : OwnedBy db id user) : OwnedBy db' id user := by
  cases h with
  | same hws howners => exact ⟨hws.trans howned.1, (SoleOwner.congr howners).mpr howned.2⟩
  | founded _ _ _ hnew =>
    rw [hnew] at howned
    exact absurd (hnumbered.lt_of_ownership howned.1) (Nat.lt_irrefl _)
  | crowned user' hbefore hafter => exact absurd howned.right hbefore.not_right
  | handed old new hreq hbefore hafter =>
    have heq := hbefore.1.symm.trans howned.1
    cases heq
    exact absurd hreq hr
  | deleted m hreq hbefore hafter =>
    rw [howned.2.unique hbefore] at hreq
    exact absurd hreq hr
  | noTeam hteam hws => exact absurd howned.1 (hteam user)

/-- A workspace that waits for its owner goes on waiting, unless it was given one. -/
theorem Effect.awaiting (h : Effect r q db db') (hnumbered : Numbered db)
    (hq : ∀ u, q ≠ .insertMember id u .owner) (hwait : Awaiting db id user) :
    Awaiting db' id user := by
  have hmemberless : Memberless db' id := by
    obtain hnone | hestablished | ⟨u, hu⟩ := h.joined id hwait.memberless
    · exact hnone
    · exact absurd hestablished.right hwait.not_right
    · exact absurd hu (hq u)
  refine ⟨?_, hmemberless⟩
  cases h.change id with
  | same hws howners => exact hws.trans hwait.named
  | founded _ _ _ hnew =>
    have hlt := hnumbered.lt_of_ownership hwait.named
    rw [hnew] at hlt
    exact absurd hlt (Nat.lt_irrefl _)
  | crowned user' hbefore hafter => exact absurd hmemberless hafter.2.not_memberless
  | handed old new hr hbefore hafter => exact absurd hmemberless hafter.2.not_memberless
  | deleted m hr hbefore hafter => exact absurd hbefore hwait.memberless.not_isOwner
  | noTeam hteam hws => exact hws.trans hwait.named

theorem Effect.established (h : Effect r q db db') (hid : Established db id) :
    Established db' id :=
  ⟨Nat.lt_of_lt_of_le hid.drawn h.drawn, (h.change id).right (Nat.ne_of_lt hid.drawn) hid.right⟩

theorem Effect.orderly (h : Effect r q db db') (horderly : Orderly db) : Orderly db' where
  numbered := h.numbered
  settled id := by
    obtain hright | hmemberless := horderly.settled id
    · by_cases hid : id = db.drawn
      · rw [hid]
        obtain hnone | hestablished | ⟨user, hq⟩ := h.joined _ horderly.numbered.memberless
        · exact .inr hnone
        · exact absurd hestablished.drawn (Nat.lt_irrefl _)
        · exact .inl (h.crowned _ user hq)
      · exact .inl ((h.change id).right hid hright)
    · obtain hnone | hestablished | ⟨user, hq⟩ := h.joined id hmemberless
      · exact .inr hnone
      · exact .inl (h.established hestablished).right
      · exact .inl (h.crowned id user hq)
  invited i hi := by
    obtain ⟨i₀, hi₀, hsame⟩ | hestablished := h.invited i hi
    · rw [← hsame]
      exact h.established (horderly.invited i₀ hi₀)
    · exact h.established hestablished

/-- Only the creation of a team leaves a workspace without its owner, and the save that gives it
one settles that. -/
theorem Effect.not_right (h : Effect r q db db') (hnumbered : Numbered db)
    (hwrong : ¬ Right db' id) :
    ¬ Right db id ∧ (∀ user, q ≠ .insertMember id user .owner) ∨
      id = db.drawn ∧ ∃ user name, q = .insertTeam user name := by
  by_cases hid : id = db.drawn
  · right
    rw [hid] at hwrong
    have hnone := hnumbered.ownership_drawn
    cases h.change db.drawn with
    | same hws howners => exact absurd (right_of_none (hws.trans hnone)) hwrong
    | founded user name hq hnew => exact ⟨hid, user, name, hq⟩
    | crowned user hbefore hafter =>
      rw [hbefore.named] at hnone
      cases hnone
    | handed old new hr hbefore hafter => exact absurd hafter.right hwrong
    | deleted m hr hbefore hafter => exact absurd (right_of_none hafter) hwrong
    | noTeam hteam hws => exact absurd (right_of_none (hws.trans hnone)) hwrong
  · left
    exact ⟨fun hright => hwrong ((h.change id).right hid hright),
      fun user hq => hwrong (h.crowned id user hq)⟩

/-! ## 3. The effect of every statement -/

/-- What the statement rests on beside what was read just before it. -/
def Ready : Statement → Database → Prop
  | .saveWorkspace ws, db =>
    ws.id < db.drawn ∧ ∀ type user, ownership db ws.id = some (type, user) → type = ws.type
  | .insertMember id user role, db =>
    if role = .owner then Awaiting db id user else Established db id
  | .writeInvitation id _ _ _ _, db | .applyAccept _ id _ _, db => Established db id
  | .saveResent i _, db => Established db i.workspaceId
  | _, _ => True

/-- The loaded workspace that the statement saves, if it saves one. -/
def Statement.savedWorkspace? : Statement → Option Workspace
  | .saveWorkspace ws => some ws
  | _ => none

/-- A save of a workspace finds the row with the owner it was read with. -/
def OwnerUnmoved (_ : Request) (q : Statement) (db : Database) : Prop :=
  ∀ ws ∈ q.savedWorkspace?, (db.findWorkspace ws.id).map Workspace.ownerId = some ws.ownerId

instance (r : Request) (q : Statement) (db : Database) : Decidable (OwnerUnmoved r q db) :=
  inferInstanceAs (Decidable (∀ ws ∈ q.savedWorkspace?, _ = some ws.ownerId))

/-- A statement that leaves workspaces and members alone. -/
private theorem effect_of_invitations (horderly : Orderly db)
    (hws : db'.workspaces = db.workspaces) (hmembers : db'.members = db.members)
    (hdrawn : db.drawn ≤ db'.drawn) (hq : ∀ id user, q ≠ .insertMember id user .owner)
    (hinvited : ∀ i ∈ db'.invitations.values,
      (∃ i₀ ∈ db.invitations.values, i₀.workspaceId = i.workspaceId) ∨
        Established db i.workspaceId) : Effect r q db db' where
  change id := by
    apply Change.same
    · unfold ownership Database.findWorkspace
      rw [hws]
    · intro m
      constructor
      · exact fun h => ⟨hmembers ▸ h.mem, h.workspace, h.role⟩
      · exact fun h => ⟨hmembers.symm ▸ h.mem, h.workspace, h.role⟩
  drawn := hdrawn
  numbered := by
    constructor
    · rw [hws]
      exact fun ws hmem => Nat.lt_of_lt_of_le (horderly.numbered.workspaces ws hmem) hdrawn
    · rw [hmembers]
      exact fun m hmem => Nat.lt_of_lt_of_le (horderly.numbered.members m hmem) hdrawn
    · rw [hmembers]
      exact fun m hmem => Nat.lt_of_lt_of_le (horderly.numbered.memberships m hmem) hdrawn
  joined id hnone := by
    left
    unfold Memberless
    rw [hmembers]
    exact hnone
  crowned id user heq := absurd heq (hq id user)
  invited := hinvited

private theorem effect_refl (horderly : Orderly db)
    (hq : ∀ id user, q ≠ .insertMember id user .owner) : Effect r q db db :=
  effect_of_invitations horderly rfl rfl (Nat.le_refl _) hq fun i hi => .inl ⟨i, hi, rfl⟩

/-- A statement that changes or removes members, but neither makes nor moves one. -/
private theorem effect_of_members (horderly : Orderly db) {members : KeyedMap WorkspaceMember.id}
    (hfrom : ∀ m ∈ members.values, ∃ m₀ ∈ db.members.values, m₀.id = m.id ∧
      m₀.workspaceId = m.workspaceId)
    (howners : ∀ id, (∀ m, IsOwner { db with members := members } id m ↔ IsOwner db id m) ∨
      ∀ user, ownership db id ≠ some (.team, user))
    (hq : ∀ id user, q ≠ .insertMember id user .owner) :
    Effect r q db { db with members := members } where
  change id := by
    obtain hsame | hteam := howners id
    · exact .same rfl hsame
    · exact .noTeam hteam rfl
  drawn := Nat.le_refl _
  numbered := by
    refine ⟨horderly.numbered.workspaces, fun m hm => ?_, fun m hm => ?_⟩
    · obtain ⟨m₀, hm₀, hid, -⟩ := hfrom m hm
      rw [← hid]
      exact horderly.numbered.members m₀ hm₀
    · obtain ⟨m₀, hm₀, -, hws⟩ := hfrom m hm
      rw [← hws]
      exact horderly.numbered.memberships m₀ hm₀
  joined id hnone := by
    left
    intro m hm
    obtain ⟨m₀, hm₀, -, hws⟩ := hfrom m hm
    rw [← hws]
    exact hnone m₀ hm₀
  crowned id user heq := absurd heq (hq id user)
  invited i hi := .inl ⟨i, hi, rfl⟩

section

variable {invitations : KeyedMap WorkspaceInvitation.id}

/-- The tables with a new row for a member. -/
private def withMember (db : Database) (m : WorkspaceMember)
    (invitations : KeyedMap WorkspaceInvitation.id) : Database :=
  { db with members := db.members.set m, invitations := invitations, drawn := db.drawn + 1 }

private theorem mem_withMember (hnumbered : Numbered db) (hm : m.id = db.drawn)
    {m' : WorkspaceMember} :
    m' ∈ (withMember db m invitations).members.values ↔ m' = m ∨ m' ∈ db.members.values := by
  show m' ∈ (db.members.set m).values ↔ _
  rw [KeyedMap.mem_set]
  refine or_congr_right (and_iff_left_of_imp fun hmem => ?_)
  rw [hm]
  exact Nat.ne_of_lt (hnumbered.members m' hmem)

private theorem isOwner_withMember (hnumbered : Numbered db) (hm : m.id = db.drawn)
    {m' : WorkspaceMember} (hother : m.role = .owner → m.workspaceId ≠ id) :
    IsOwner (withMember db m invitations) id m' ↔ IsOwner db id m' := by
  constructor
  · rintro ⟨hmem, hin, howner⟩
    obtain rfl | hold := (mem_withMember hnumbered hm).mp hmem
    · exact absurd hin (hother howner)
    · exact ⟨hold, hin, howner⟩
  · rintro ⟨hmem, hin, howner⟩
    exact ⟨(mem_withMember hnumbered hm).mpr (.inr hmem), hin, howner⟩

private theorem Numbered.withMember (h : Numbered db) (hm : m.id = db.drawn)
    (hws : m.workspaceId < db.drawn) : Numbered (withMember db m invitations) where
  workspaces ws hmem := Nat.lt_succ_of_lt (h.workspaces ws hmem)
  members m' hm' := by
    obtain rfl | hold := (mem_withMember h hm).mp hm'
    · rw [hm]
      exact Nat.lt_succ_self _
    · exact Nat.lt_succ_of_lt (h.members m' hold)
  memberships m' hm' := by
    obtain rfl | hold := (mem_withMember h hm).mp hm'
    · exact Nat.lt_succ_of_lt hws
    · exact Nat.lt_succ_of_lt (h.memberships m' hold)

private theorem Memberless.withMember (hnumbered : Numbered db) (hm : m.id = db.drawn)
    (hother : m.workspaceId ≠ id) (h : Memberless db id) :
    Memberless (withMember db m invitations) id := by
  intro m' hm'
  obtain rfl | hold := (mem_withMember hnumbered hm).mp hm'
  · exact hother
  · exact h m' hold

/-- A new member who is not the owner comes to an established workspace. -/
private theorem effect_of_join (horderly : Orderly db) (hm : m.id = db.drawn)
    (hestablished : Established db m.workspaceId) (hrole : m.role ≠ .owner)
    (hinvited : ∀ i ∈ invitations.values,
      ∃ i₀ ∈ db.invitations.values, i₀.workspaceId = i.workspaceId)
    (hq : ∀ id user, q ≠ .insertMember id user .owner) :
    Effect r q db (withMember db m invitations) where
  change id := by
    apply Change.same
    · rfl
    · exact fun m' => isOwner_withMember horderly.numbered hm fun howner => absurd howner hrole
  drawn := Nat.le_succ _
  numbered := horderly.numbered.withMember hm hestablished.drawn
  joined id hnone := by
    by_cases heq : m.workspaceId = id
    · rw [← heq]
      exact .inr (.inl hestablished)
    · exact .inl (hnone.withMember horderly.numbered hm heq)
  crowned id user heq := absurd heq (hq id user)
  invited i hi := .inl (hinvited i hi)

end

/-- The second save of a creation. -/
private theorem effect_of_crown (horderly : Orderly db) (hwait : Awaiting db id user)
    {around : Surroundings} :
    Effect r (.insertMember id user .owner) db
      (Statement.exec (.insertMember id user .owner) around db).2 := by
  -- the workspace is there and has no member: the row is taken
  have hws : db.findWorkspace id ≠ none := by
    intro hnone
    have hnamed := hwait.named
    unfold ownership at hnamed
    rw [hnone] at hnamed
    cases hnamed
  have hmember : db.findMember id user = none :=
    Database.findMember_eq_none.mpr fun m hm hin => absurd hin (hwait.memberless m hm)
  have hexec : (Statement.exec (.insertMember id user .owner) around db).2 =
      withMember db ⟨db.drawn, id, user, .owner, some around.now⟩ db.invitations := by
    show (Statement.commit db ((db.insertMember around.now id user .owner).map Prod.snd)).2 = _
    unfold Database.insertMember
    rw [if_neg hws, if_neg (not_not.mpr hmember)]
    rfl
  have hnumbered := horderly.numbered
  have hafter : OwnedBy (withMember db ⟨db.drawn, id, user, .owner, some around.now⟩
      db.invitations) id user := by
    refine ⟨hwait.named, _, ⟨(mem_withMember hnumbered rfl).mpr (.inl rfl), rfl, rfl⟩, rfl, ?_⟩
    rintro m' ⟨hmem, hin, -⟩
    obtain rfl | hold := (mem_withMember hnumbered rfl).mp hmem
    · rfl
    · exact absurd hin (hwait.memberless m' hold)
  rw [hexec]
  constructor
  · intro id'
    by_cases heq : id' = id
    · rw [heq]
      exact .crowned user hwait hafter
    · apply Change.same
      · rfl
      · exact fun m' => isOwner_withMember hnumbered rfl fun _ hin => heq hin.symm
  · exact Nat.le_succ _
  · exact hnumbered.withMember rfl (hnumbered.lt_of_ownership hwait.named)
  · intro id' hnone
    by_cases heq : id' = id
    · rw [heq]
      exact .inr (.inr ⟨user, rfl⟩)
    · exact .inl (hnone.withMember hnumbered rfl fun hin => heq hin.symm)
  · intro id' user' heq
    cases heq
    exact hafter.right
  · exact fun i hi => .inl ⟨i, hi, rfl⟩

private theorem effect_insertTeam (horderly : Orderly db) {name : String} :
    Effect r (.insertTeam user name) db (db.insertTeam user name).2 where
  change id := by
    by_cases hid : id = db.drawn
    · exact .founded user name rfl hid
    · apply Change.same
      · have hne : id ≠ (⟨db.drawn, name, .team, user, []⟩ : Workspace).id := hid
        show Option.map _ ((db.workspaces.set _).get? id) = _
        rw [KeyedMap.get?_set_of_ne hne]
        rfl
      · exact fun m => ⟨fun h => ⟨h.mem, h.workspace, h.role⟩, fun h => ⟨h.mem, h.workspace, h.role⟩⟩
  drawn := Nat.le_succ _
  numbered := by
    refine ⟨fun ws hws => ?_,
      fun m hm => Nat.lt_succ_of_lt (horderly.numbered.members m hm),
      fun m hm => Nat.lt_succ_of_lt (horderly.numbered.memberships m hm)⟩
    obtain rfl | ⟨hold, -⟩ := KeyedMap.mem_set.mp hws
    · exact Nat.lt_succ_self _
    · exact Nat.lt_succ_of_lt (horderly.numbered.workspaces ws hold)
  joined id hnone := .inl hnone
  crowned id user' heq := nomatch heq
  invited i hi := .inl ⟨i, hi, rfl⟩

/-- A new team waits for its owner. -/
theorem awaiting_insertTeam (horderly : Orderly db) {name : String} :
    Awaiting (db.insertTeam user name).2 db.drawn user where
  named := by
    have hget : (db.workspaces.set ⟨db.drawn, name, .team, user, []⟩).get? db.drawn =
        some ⟨db.drawn, name, .team, user, []⟩ :=
      KeyedMap.get?_set_self (x := (⟨db.drawn, name, .team, user, []⟩ : Workspace))
    show Option.map _ ((db.workspaces.set _).get? db.drawn) = _
    rw [hget]
    rfl
  memberless := horderly.numbered.memberless

/-- The save of an entity whose row has kept its owner. -/
private theorem effect_saveWorkspace (horderly : Orderly db) {ws : Workspace}
    (hready : Ready (.saveWorkspace ws) db) (hok : OwnerUnmoved r (.saveWorkspace ws) db) :
    Effect r (.saveWorkspace ws) db (db.saveWorkspace ws) where
  change id := by
    obtain ⟨row, hrow, howner⟩ := Option.map_eq_some_iff.mp (hok ws rfl)
    apply Change.same
    · by_cases hid : id = ws.id
      · have hbefore : ownership db ws.id = some (row.type, row.ownerId) := by
          unfold ownership
          rw [hrow]
          rfl
        have htype : row.type = ws.type := hready.2 _ _ hbefore
        rw [hid, hbefore, htype, howner]
        show Option.map _ ((db.workspaces.set ws).get? ws.id) = _
        rw [KeyedMap.get?_set_self]
        rfl
      · show Option.map _ ((db.workspaces.set ws).get? id) = _
        rw [KeyedMap.get?_set_of_ne hid]
        rfl
    · exact fun m => ⟨fun h => ⟨h.mem, h.workspace, h.role⟩, fun h => ⟨h.mem, h.workspace, h.role⟩⟩
  drawn := Nat.le_refl _
  numbered := by
    refine ⟨fun ws' hws => ?_, horderly.numbered.members, horderly.numbered.memberships⟩
    obtain rfl | ⟨hold, -⟩ := KeyedMap.mem_set.mp hws
    · exact hready.1
    · exact horderly.numbered.workspaces ws' hold
  joined id hnone := .inl hnone
  crowned id user heq := nomatch heq
  invited i hi := .inl ⟨i, hi, rfl⟩

private theorem effect_deleteWorkspace (horderly : Orderly db) {requesterId : Id}
    (hr : r.requester = some requesterId) (h : db.deleteWorkspace id requesterId = .ok db') :
    Effect r (.deleteWorkspace id requesterId) db db' := by
  obtain ⟨m, hm, hin, huser, hrole, rfl⟩ := Database.deleteWorkspace_eq_ok h
  constructor
  · intro id'
    by_cases hid : id' = id
    · refine .deleted m (by rw [huser, hr]) ⟨hm, hin.trans hid.symm, hrole⟩ ?_
      show Option.map _ ((db.workspaces.delete id).get? id') = none
      have hgone : (db.workspaces.delete id).get? id' = none := by
        rw [hid, KeyedMap.get?_eq_none_iff]
        exact fun ws hws => (KeyedMap.mem_delete.mp hws).2
      rw [hgone]
      rfl
    · apply Change.same
      · show Option.map _ ((db.workspaces.delete id).get? id') = _
        rw [KeyedMap.get?_delete_of_ne hid]
        rfl
      · intro m'
        constructor
        · rintro ⟨hmem, hws, howner⟩
          exact ⟨(KeyedMap.mem_filter.mp hmem).1, hws, howner⟩
        · rintro ⟨hmem, hws, howner⟩
          refine ⟨KeyedMap.mem_filter.mpr ⟨hmem, decide_eq_true ?_⟩, hws, howner⟩
          rw [hws]
          exact hid
  · exact Nat.le_refl _
  · refine ⟨fun ws hws => ?_, fun m' hm' => ?_, fun m' hm' => ?_⟩
    · exact horderly.numbered.workspaces ws (KeyedMap.mem_delete.mp hws).1
    · exact horderly.numbered.members m' (KeyedMap.mem_filter.mp hm').1
    · exact horderly.numbered.memberships m' (KeyedMap.mem_filter.mp hm').1
  · exact fun id' hnone => .inl fun m' hm' => hnone m' (KeyedMap.mem_filter.mp hm').1
  · exact fun id' user heq => nomatch heq
  · exact fun i hi => .inl ⟨i, (KeyedMap.mem_filter.mp hi).1, rfl⟩

/-- The sole owner is the only one counted. -/
private theorem SoleOwner.length_owners_le (h : SoleOwner db id user) :
    (db.owners id).length ≤ 1 := by
  obtain ⟨m, -, -, honly⟩ := h
  have hall : ∀ m' ∈ db.owners id, m' = m := by
    intro m' hm'
    obtain ⟨hmem, hboth⟩ := List.mem_filter.mp hm'
    have hboth := of_decide_eq_true hboth
    exact honly m' ⟨hmem, hboth.1, hboth.2⟩
  have hnodup : (db.owners id).Nodup := (List.Nodup.of_map _ db.members.nodup).filter _
  match howners : db.owners id with
  | [] => exact Nat.zero_le 1
  | [_] => exact Nat.le_refl 1
  | a :: b :: rest =>
    rw [howners] at hall hnodup
    have hab : a = b := (hall a (by simp)).trans (hall b (by simp)).symm
    exact absurd (by rw [hab]; simp) (List.nodup_cons.mp hnodup).1

private theorem effect_leaveWorkspace (horderly : Orderly db) {requesterId : Id}
    (h : db.leaveWorkspace id requesterId = .ok db')
    (hq : ∀ id user, q ≠ .insertMember id user .owner) : Effect r q db db' := by
  obtain ⟨m, hm, hin, hsole, rfl⟩ := Database.leaveWorkspace_eq_ok h
  refine effect_of_members horderly (fun m' hm' => ⟨m', (KeyedMap.mem_delete.mp hm').1, rfl, rfl⟩)
    (fun id' => ?_) hq
  have hsub : ∀ m', IsOwner { db with members := db.members.delete m.id } id' m' →
      IsOwner db id' m' :=
    fun m' h => ⟨(KeyedMap.mem_delete.mp h.mem).1, h.workspace, h.role⟩
  by_cases hleft : m.role = .owner ∧ m.workspaceId = id'
  · -- an owner may leave only where there are two, and so not where there is a team
    right
    intro user hteam
    have hid : id' = id := hleft.2.symm.trans hin
    rw [hid] at hteam
    obtain hright | hnone := horderly.settled id
    · have hlt := hsole hleft.1
      have hle := (hright user hteam).length_owners_le
      omega
    · exact hnone m hm hin
  · left
    intro m'
    refine ⟨hsub m', fun h => ⟨KeyedMap.mem_delete.mpr ⟨h.mem, ?_⟩, h.workspace, h.role⟩⟩
    intro hid
    have heq := KeyedMap.eq_of_key_eq h.mem hm hid
    rw [heq] at h
    exact hleft ⟨h.role, h.workspace⟩

private theorem effect_of_nonOwner (horderly : Orderly db) (hm : m ∈ db.members.values)
    (hrole : m.role ≠ .owner) {members : KeyedMap WorkspaceMember.id}
    (hmembers : ∀ m', m' ∈ members.values ↔
      (m' ∈ db.members.values ∧ m'.id ≠ m.id) ∨
        m' ∈ members.values ∧ m'.id = m.id ∧ m'.workspaceId = m.workspaceId ∧ m'.role ≠ .owner)
    (hq : ∀ id user, q ≠ .insertMember id user .owner) :
    Effect r q db { db with members := members } := by
  refine effect_of_members horderly (fun m' hm' => ?_) (fun id => .inl fun m' => ?_) hq
  · obtain ⟨hold, -⟩ | ⟨-, hid, hws, -⟩ := (hmembers m').mp hm'
    · exact ⟨m', hold, rfl, rfl⟩
    · exact ⟨m, hm, hid.symm, hws.symm⟩
  · constructor
    · rintro ⟨hmem, hin, howner⟩
      obtain ⟨hold, -⟩ | ⟨-, -, -, hnot⟩ := (hmembers m').mp hmem
      · exact ⟨hold, hin, howner⟩
      · exact absurd howner hnot
    · rintro ⟨hmem, hin, howner⟩
      refine ⟨(hmembers m').mpr (.inl ⟨hmem, fun hid => ?_⟩), hin, howner⟩
      rw [KeyedMap.eq_of_key_eq hmem hm hid] at howner
      exact hrole howner

private theorem effect_transferOwnership (horderly : Orderly db) {requesterId memberId : Id}
    (hr : r.requester = some requesterId)
    (h : db.transferOwnership id requesterId memberId = .ok db') :
    Effect r (.transferOwnership id requesterId memberId) db db' := by
  obtain ⟨ws, own, target, hws, hown, htarget, hteam, rfl⟩ := Database.transferOwnership_eq_ok h
  obtain ⟨hownMem, hownIn, hownUser, hownRole⟩ := Database.ownMembership_eq_ok hown
  obtain ⟨htargetMem, htargetIn, hne, -⟩ := Database.transferTarget_eq_ok htarget
  obtain ⟨hwsMem, hwsId⟩ := KeyedMap.get?_eq_some_iff.mp hws
  -- the requester is the owner the workspace names
  have hnamed : ownership db id = some (.team, ws.ownerId) := by
    unfold ownership
    rw [hws, ← hteam]
    rfl
  have hsole : SoleOwner db id ws.ownerId := by
    obtain hright | hnone := horderly.settled id
    · exact hright _ hnamed
    · exact absurd hownIn (hnone own hownMem)
  have howner : ws.ownerId = requesterId :=
    (hsole.unique ⟨hownMem, hownIn, hownRole⟩).symm.trans hownUser
  rw [howner] at hnamed hsole
  have hmem : ∀ m', m' ∈ ((db.members.set { target with role := .owner }).set
      { own with role := .admin }).values ↔
      m' = { own with role := .admin } ∨ m' = { target with role := .owner } ∨
        m' ∈ db.members.values ∧ m'.id ≠ target.id ∧ m'.id ≠ own.id := by
    intro m'
    rw [KeyedMap.mem_set, KeyedMap.mem_set]
    refine or_congr_right ⟨?_, ?_⟩
    · rintro ⟨rfl | ⟨hold, hnotTarget⟩, hnotOwn⟩
      · exact .inl rfl
      · exact .inr ⟨hold, hnotTarget, hnotOwn⟩
    · rintro (rfl | ⟨hold, hnotTarget, hnotOwn⟩)
      · exact ⟨.inl rfl, hne⟩
      · exact ⟨.inr ⟨hold, hnotTarget⟩, hnotOwn⟩
  have hfrom : ∀ m' ∈ ((db.members.set { target with role := .owner }).set
      { own with role := .admin }).values,
      ∃ m₀ ∈ db.members.values, m₀.id = m'.id ∧ m₀.workspaceId = m'.workspaceId := by
    intro m' hm'
    obtain rfl | rfl | ⟨hold, -, -⟩ := (hmem m').mp hm'
    · exact ⟨own, hownMem, rfl, rfl⟩
    · exact ⟨target, htargetMem, rfl, rfl⟩
    · exact ⟨m', hold, rfl, rfl⟩
  constructor
  · intro id'
    by_cases hid : id' = id
    · rw [hid]
      refine .handed requesterId target.userId hr ⟨hnamed, hsole⟩ ⟨?_, ?_⟩
      · show Option.map _ ((db.workspaces.set _).get? id) = _
        rw [← hwsId]
        have hget : (db.workspaces.set { ws with ownerId := target.userId }).get? ws.id =
            some { ws with ownerId := target.userId } := KeyedMap.get?_set_self
        rw [hget]
        show some (ws.type, target.userId) = _
        rw [hteam]
      · refine ⟨_, ⟨(hmem _).mpr (.inr (.inl rfl)), htargetIn, rfl⟩, rfl, ?_⟩
        rintro m' ⟨hm', hin, hrole⟩
        obtain rfl | rfl | ⟨hold, -, hnotOwn⟩ := (hmem m').mp hm'
        · cases hrole
        · rfl
        · -- the only other owner is the one who hands over
          obtain ⟨m₀, -, -, honly⟩ := hsole
          have heq := (honly m' ⟨hold, hin, hrole⟩).trans
            (honly own ⟨hownMem, hownIn, hownRole⟩).symm
          rw [heq] at hnotOwn
          exact absurd rfl hnotOwn
    · apply Change.same
      · have hkey : id' ≠ ({ ws with ownerId := target.userId } : Workspace).id :=
          fun heq => hid (heq.trans hwsId)
        show Option.map _ ((db.workspaces.set _).get? id') = _
        rw [KeyedMap.get?_set_of_ne hkey]
        rfl
      · intro m'
        constructor
        · rintro ⟨hm', hin, hrole⟩
          obtain rfl | rfl | ⟨hold, -, -⟩ := (hmem m').mp hm'
          · exact absurd (hin.symm.trans hownIn) hid
          · exact absurd (hin.symm.trans htargetIn) hid
          · exact ⟨hold, hin, hrole⟩
        · rintro ⟨hold, hin, hrole⟩
          refine ⟨(hmem m').mpr (.inr (.inr ⟨hold, fun heq => ?_, fun heq => ?_⟩)), hin, hrole⟩
          · rw [KeyedMap.eq_of_key_eq hold htargetMem heq] at hin
            exact hid (hin.symm.trans htargetIn)
          · rw [KeyedMap.eq_of_key_eq hold hownMem heq] at hin
            exact hid (hin.symm.trans hownIn)
  · exact Nat.le_refl _
  · refine ⟨fun ws' hws' => ?_, fun m' hm' => ?_, fun m' hm' => ?_⟩
    · obtain rfl | ⟨hold, -⟩ := KeyedMap.mem_set.mp hws'
      · exact horderly.numbered.workspaces ws hwsMem
      · exact horderly.numbered.workspaces ws' hold
    · obtain ⟨m₀, hm₀, hid, -⟩ := hfrom m' hm'
      rw [← hid]
      exact horderly.numbered.members m₀ hm₀
    · obtain ⟨m₀, hm₀, -, hin⟩ := hfrom m' hm'
      rw [← hin]
      exact horderly.numbered.memberships m₀ hm₀
  · intro id' hnone
    left
    intro m' hm'
    obtain ⟨m₀, hm₀, -, hin⟩ := hfrom m' hm'
    rw [← hin]
    exact hnone m₀ hm₀
  · exact fun id' user' heq => nomatch heq
  · exact fun i hi => .inl ⟨i, hi, rfl⟩

private theorem effect_applyAccept (horderly : Orderly db) {now invitationId userId : Id}
    {role : InvitationRole} (hestablished : Established db id)
    (h : db.applyAccept now invitationId id role userId = .ok db')
    (hq : ∀ id user, q ≠ .insertMember id user .owner) : Effect r q db db' := by
  obtain ⟨consumed, hconsumed, hjoin⟩ := Database.applyAccept_eq_ok h
  obtain ⟨i, hi, -, -, rfl⟩ := Database.consume_eq_ok hconsumed
  have hinvited : ∀ i' ∈ (db.invitations.set
      { i with acceptedAt := some now, acceptedBy := some userId }).values,
      ∃ i₀ ∈ db.invitations.values, i₀.workspaceId = i'.workspaceId := by
    intro i' hi'
    obtain rfl | ⟨hold, -⟩ := KeyedMap.mem_set.mp hi'
    · exact ⟨i, hi, rfl⟩
    · exact ⟨i', hold, rfl⟩
  obtain rfl | ⟨-, rfl⟩ := Database.joinAs_eq_ok hjoin
  · exact effect_of_invitations horderly rfl rfl (Nat.le_refl _) hq
      fun i' hi' => .inl (hinvited i' hi')
  · have hrole : role.asMember ≠ .owner := by cases role <;> exact fun h => nomatch h
    exact effect_of_join (m := ⟨db.drawn, id, userId, role.asMember, some now⟩) horderly rfl
      hestablished hrole hinvited hq

private theorem effect_saveInvitation (horderly : Orderly db) {i : WorkspaceInvitation} {n : Nat}
    (hestablished : Established db i.workspaceId) (hn : db.drawn ≤ n)
    (hq : ∀ id user, q ≠ .insertMember id user .owner) :
    Effect r q db { db with invitations := db.invitations.set i, drawn := n } := by
  refine effect_of_invitations horderly rfl rfl hn hq fun i' hi' => ?_
  obtain rfl | ⟨hold, -⟩ := KeyedMap.mem_set.mp hi'
  · exact .inr hestablished
  · exact .inl ⟨i', hold, rfl⟩

theorem effect_exec (horderly : Orderly db) (hsends : r.Sends q) (hready : Ready q db)
    (hok : OwnerUnmoved r q db) (around : Surroundings) :
    Effect r q db (q.exec around db).2 := by
  cases q with
  | findMember | findMemberById | findWorkspace | findInvitation | findInvitationByToken
  | lookupByEmail | findUser => exact effect_refl horderly fun _ _ h => nomatch h
  | insertTeam userId name => exact effect_insertTeam horderly
  | saveWorkspace ws => exact effect_saveWorkspace horderly hready hok
  | deleteWorkspace workspaceId requesterId =>
    show Effect r _ db (Statement.commit db (db.deleteWorkspace workspaceId requesterId)).2
    cases h : db.deleteWorkspace workspaceId requesterId with
    | error e => exact effect_refl horderly fun _ _ h => nomatch h
    | ok db' => exact effect_deleteWorkspace horderly hsends.1 h
  | insertMember workspaceId userId role =>
    by_cases hrole : role = .owner
    · subst hrole
      exact effect_of_crown horderly hready
    · have hq : ∀ id user, Statement.insertMember workspaceId userId role ≠
          .insertMember id user .owner := fun _ _ h => hrole (by cases h; rfl)
      have hestablished : Established db workspaceId := by
        change if role = .owner then _ else _ at hready
        rwa [if_neg hrole] at hready
      show Effect r _ db (Statement.commit db
        ((db.insertMember around.now workspaceId userId role).map Prod.snd)).2
      cases h : db.insertMember around.now workspaceId userId role with
      | error e => exact effect_refl horderly hq
      | ok row =>
        rw [(Database.insertMember_eq_ok h).2]
        exact effect_of_join (m := ⟨db.drawn, workspaceId, userId, role, some around.now⟩) horderly
          rfl hestablished hrole (fun i hi => ⟨i, hi, rfl⟩) hq
  | updateMemberRole workspaceId memberId role requesterRole =>
    show Effect r _ db (Statement.commit db
      (db.updateMemberRole workspaceId memberId role requesterRole)).2
    cases h : db.updateMemberRole workspaceId memberId role requesterRole with
    | error e => exact effect_refl horderly fun _ _ h => nomatch h
    | ok db' =>
      obtain ⟨m, hm, hbefore, hafter, rfl⟩ := Database.updateMemberRole_eq_ok h
      refine effect_of_nonOwner horderly hm hbefore (fun m' => ?_) fun _ _ h => nomatch h
      rw [KeyedMap.mem_set, or_comm]
      refine or_congr_right ⟨?_, ?_⟩
      · rintro rfl
        exact ⟨.inr rfl, rfl, rfl, hafter⟩
      · rintro ⟨⟨-, hne⟩ | rfl, hid, -⟩
        · exact absurd hid hne
        · rfl
  | deleteNonOwner memberId workspaceId =>
    show Effect r _ db (db.deleteNonOwner memberId workspaceId).2
    obtain heq | ⟨m, hm, hrole, heq⟩ := @Database.deleteNonOwner_cases db workspaceId memberId
    · rw [heq]
      exact effect_refl horderly fun _ _ h => nomatch h
    · rw [heq]
      refine effect_of_nonOwner horderly hm hrole (fun m' => ?_) fun _ _ h => nomatch h
      rw [KeyedMap.mem_delete]
      exact ⟨.inl, fun h => h.elim (fun h => h) fun h => absurd h.2.1 h.1.2⟩
  | leaveWorkspace workspaceId requesterId =>
    show Effect r _ db (Statement.commit db (db.leaveWorkspace workspaceId requesterId)).2
    cases h : db.leaveWorkspace workspaceId requesterId with
    | error e => exact effect_refl horderly fun _ _ h => nomatch h
    | ok db' => exact effect_leaveWorkspace horderly h fun _ _ h => nomatch h
  | transferOwnership workspaceId requesterId newOwnerMemberId =>
    show Effect r _ db (Statement.commit db
      (db.transferOwnership workspaceId requesterId newOwnerMemberId)).2
    cases h : db.transferOwnership workspaceId requesterId newOwnerMemberId with
    | error e => exact effect_refl horderly fun _ _ h => nomatch h
    | ok db' => exact effect_transferOwnership horderly hsends.1 h
  | writeInvitation workspaceId email role requesterId requesterRole =>
    show Effect r _ db (Statement.commit db
      (db.writeInvitation around.now workspaceId email role requesterId requesterRole)).2
    cases h : db.writeInvitation around.now workspaceId email role requesterId requesterRole with
    | error e => exact effect_refl horderly fun _ _ h => nomatch h
    | ok db' =>
      obtain ⟨pending, -, hin, -, -, rfl⟩ | rfl := Database.writeInvitation_eq_ok h
      · have hestablished : Established db pending.workspaceId := hin ▸ hready
        exact effect_saveInvitation horderly hestablished (Nat.le_succ _) fun _ _ h => nomatch h
      · exact effect_saveInvitation horderly hready (Nat.le_add_right _ 2) fun _ _ h => nomatch h
  | saveResent invitation requesterId =>
    show Effect r _ db (Statement.commit db
      (db.saveResent around.now invitation requesterId)).2
    cases h : db.saveResent around.now invitation requesterId with
    | error e => exact effect_refl horderly fun _ _ h => nomatch h
    | ok db' =>
      rw [Database.saveResent_eq_ok h]
      exact effect_saveInvitation horderly hready (Nat.le_succ _) fun _ _ h => nomatch h
  | applyAccept invitationId workspaceId role userId =>
    show Effect r _ db (Statement.commit db
      (db.applyAccept around.now invitationId workspaceId role userId)).2
    cases h : db.applyAccept around.now invitationId workspaceId role userId with
    | error e => exact effect_refl horderly fun _ _ h => nomatch h
    | ok db' => exact effect_applyAccept horderly hready h fun _ _ h => nomatch h
  | removeInvitation invitation =>
    exact effect_of_invitations horderly rfl rfl (Nat.le_refl _) (fun _ _ h => nomatch h)
      fun i hi => .inl ⟨i, (KeyedMap.mem_delete.mp hi).1, rfl⟩
  | pruneExpired now =>
    exact effect_of_invitations horderly rfl rfl (Nat.le_refl _) (fun _ _ h => nomatch h)
      fun i hi => .inl ⟨i, (KeyedMap.mem_filter.mp hi).1, rfl⟩

end

end Clemvion.Workspaces
