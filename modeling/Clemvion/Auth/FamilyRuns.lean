import Clemvion.Auth.TokenFamilies

/-!
# FamilyRuns — refresh token families over any interleaving

The outline of every request, and what follows of the tokens for any interleaving of them.  A
family that is revoked stays closed but for one race: an UPDATE does not see the row that a
refresh inserts after the UPDATE began.  A reset token is spent once but for another: what finds
the user does not bind what saves the password.
-/

namespace Clemvion.Auth

open Clemvion.Library Program Service

/-! ## 1. The outline -/

/-- Nothing is ever owed. -/
def sessionsOutline (runtime : Runtime) : Outline Statement Request Database Empty where
  Inv := Orderly
  later := Later
  pre := Ready runtime
  claim _ := none
  owed _ _ := False

/-- Any statement may be run at any time. -/
def anyTime (_ : Request) (_ : Statement) (_ : Database) : Prop := True

section

variable {runtime : Runtime} {r : Request} {db db' : Database}

theorem sessionsOutline_sound : (sessionsOutline runtime).Sound (server runtime) anyTime where
  refl := Later.refl
  trans _ _ _ h h' := h.trans h'
  keeps _ q around db hinv hready _ := (effect_exec runtime q around db).orderly hinv hready
  proceeds _ q around db hinv _ _ := (effect_exec runtime q around db).later hinv
  undisturbed _ q around db _ _ hinv _ _ hready' _ :=
    hready'.later ((effect_exec runtime q around db).later hinv)

/-- A triple about the sessions. -/
abbrev Follows (runtime : Runtime) {α : Type} (r : Request) (P : Database → Prop) (p : Service α)
    (Post : α → Database → Prop) : Prop :=
  (sessionsOutline runtime).Triple (server runtime) anyTime r P p Post

/-- What stays true of the tables. -/
def Lasts (F : Database → Prop) : Prop := ∀ db db', Later db db' → F db → F db'

theorem handsOn_none (db db' : Database) : (sessionsOutline runtime).HandsOn none db db' none where
  fresh c := nomatch c
  owes c := nomatch c

theorem follows_send {q : Statement} {P : Database → Prop} {Post : q.Reply → Database → Prop}
    (hready : ∀ db, P db → Ready runtime r q db)
    (hpost : ∀ around before db, P before → Later before db → Orderly db →
      Post (q.exec runtime around db).1 (q.exec runtime around db).2) :
    Follows runtime r P (send q) Post :=
  Outline.triple_send rfl hready (fun _ _ _ _ _ => handsOn_none _ _)
    fun around before db hP hlater hinv _ _ => hpost around before db hP hlater hinv

/-- A statement that rests on nothing. -/
def Bare : Statement → Prop
  | .commitRevocation _ | .commitRotation .. | .insertToken _ | .setPassword .. => False
  | _ => True

theorem follows_bare {α : Type} {F : Database → Prop} {p : Service α} (hp : p.Only Bare)
    (hlasts : Lasts F) : Follows runtime r F p fun _ => F := by
  refine Outline.triple_of_only (fun _ _ => rfl) (fun q db hbare => ?_)
    (fun _ _ _ _ _ _ _ => handsOn_none _ _) hlasts sessionsOutline_sound hp
  cases q <;> trivial

/-- The last statement of a request. -/
theorem follows_last {q : Statement} {P : Database → Prop}
    (hready : ∀ db, P db → Ready runtime r q db) :
    Follows runtime r P (send q) fun _ _ => True :=
  follows_send hready fun _ _ _ _ _ _ => trivial

/-- Any end of a request. -/
theorem follows_done {α : Type} {P : Database → Prop} {outcome : Except Failure α} :
    Follows runtime r P (.done outcome) fun _ _ => True :=
  Outline.triple_done fun _ _ _ _ => trivial

theorem lasts_true : Lasts fun _ => True := fun _ _ _ _ => trivial

theorem Lasts.and {F G : Database → Prop} (hF : Lasts F) (hG : Lasts G) :
    Lasts fun db => F db ∧ G db :=
  fun db db' hlater h => ⟨hF db db' hlater h.1, hG db db' hlater h.2⟩

/-! ## 2. Updates -/

/-- The UPDATE has begun; where it is not over it has these criteria. -/
def Begun (c : Criteria) (update : Id) (db : Database) : Prop :=
  update < db.drawn ∧ ∀ u ∈ db.updates.values, u.id = update → u.criteria = c

theorem lasts_begun {c : Criteria} {update : Id} : Lasts (Begun c update) := by
  intro db db' hlater h
  refine ⟨Nat.lt_of_lt_of_le h.1 hlater.drawn, fun u hu hid => ?_⟩
  obtain hold | hnew := hlater.updates u hu
  · exact h.2 u hold hid
  · exact absurd h.1 (Nat.not_lt.mpr (hid ▸ hnew))

theorem follows_beginUpdate {c : Criteria} {F : Database → Prop} (hlasts : Lasts F) :
    Follows runtime r F (send (Q := Statement) (.beginUpdate c))
      fun update db => F db ∧ Begun c update db := by
  refine follows_send (q := .beginUpdate c) (fun _ _ => trivial) ?_
  intro around before db hF hlater hinv
  refine ⟨hlasts _ _ (hlater.trans (later_beginUpdate hinv)) hF, Nat.lt_succ_self _, ?_⟩
  intro u hu hid
  obtain rfl | hold := (mem_beginUpdate hinv).mp hu
  · rfl
  · exact absurd hid (Nat.ne_of_lt (hinv.updates u hold).1)

theorem follows_revokeWhere {c : Criteria} (hc : c.Sweeps) :
    Follows runtime r (fun _ => True) (revokeWhere c) fun _ _ => True := by
  refine Outline.Triple.bind (follows_beginUpdate lasts_true) fun update => ?_
  refine follows_last fun db h => ⟨h.2.1, fun u hu hid => ?_⟩
  rw [h.2.2 u hu hid]
  exact hc

/-! ## 3. Requests -/

theorem only_findUser {userId : Id} : (findUser userId).Only Bare := only_send trivial

theorem only_clock : clock.Only Bare := only_send trivial

namespace SessionsService

theorem only_resolveCurrentFamilyId {refreshToken : String} :
    (resolveCurrentFamilyId runtime refreshToken).Only Bare := by
  unfold resolveCurrentFamilyId
  split_ifs
  · exact only_done
  · exact Only.bind (only_send trivial) fun _ => only_done

theorem only_verifyReauth {user : User} {auth : RevokeSessionDto} :
    (verifyReauth runtime user auth).Only Bare := by
  unfold verifyReauth
  refine Only.bind only_require fun _ => ?_
  split
  · exact only_require
  · split
    · refine Only.bind only_findUser fun found => ?_
      refine Only.bind only_orReject fun userFull => ?_
      exact Only.bind (only_send trivial) fun ok => only_require
    · exact only_done

theorem only_assertNotCurrent {familyId : Id} {currentRefreshToken : Option String} :
    (assertNotCurrent runtime familyId currentRefreshToken).Only Bare := by
  unfold assertNotCurrent
  split
  · exact only_done
  · exact Only.bind only_resolveCurrentFamilyId fun _ => only_require

theorem follows_revokeFamily {userId familyId : Id} {auth : RevokeSessionDto}
    {currentRefreshToken : Option String} : Follows runtime r (fun _ => True)
      (revokeFamily runtime userId familyId auth currentRefreshToken) fun _ _ => True := by
  refine Outline.Triple.bind (follows_bare (only_send trivial) lasts_true) fun owned => ?_
  refine Outline.Triple.bind (follows_bare only_require lasts_true) fun _ => ?_
  refine Outline.Triple.bind (follows_bare only_assertNotCurrent lasts_true) fun _ => ?_
  refine Outline.Triple.bind (follows_bare only_findUser lasts_true) fun found => ?_
  refine Outline.Triple.bind (follows_bare only_orReject lasts_true) fun user => ?_
  refine Outline.Triple.bind (follows_bare only_verifyReauth lasts_true) fun _ => ?_
  refine Outline.Triple.bind (follows_revokeWhere ⟨rfl, rfl, fun h => nomatch h⟩) fun _ => ?_
  exact follows_done

theorem follows_revokeOtherFamilies {userId : Id} {auth : RevokeSessionDto}
    {currentRefreshToken : String} : Follows runtime r (fun _ => True)
      (revokeOtherFamilies runtime userId currentRefreshToken auth) fun _ _ => True := by
  refine Outline.Triple.bind (follows_bare only_findUser lasts_true) fun found => ?_
  refine Outline.Triple.bind (follows_bare only_orReject lasts_true) fun user => ?_
  refine Outline.Triple.bind (follows_bare only_verifyReauth lasts_true) fun _ => ?_
  refine Outline.Triple.bind (follows_bare only_resolveCurrentFamilyId lasts_true) fun current => ?_
  refine Outline.Triple.bind (follows_bare only_orReject lasts_true) fun currentFamilyId => ?_
  exact follows_revokeWhere ⟨rfl, rfl, fun h => nomatch h⟩

theorem follows_revokeAllFamilies {userId : Id} :
    Follows runtime r (fun _ => True) (revokeAllFamilies userId) fun _ _ => True := by
  refine Outline.Triple.bind (follows_bare only_findUser lasts_true) fun found => ?_
  refine Outline.Triple.bind (follows_bare only_orReject lasts_true) fun user => ?_
  exact follows_revokeWhere ⟨rfl, rfl, fun h => nomatch h⟩

end SessionsService

namespace AuthService

theorem follows_generateTokens {user : User} {rememberMe : Bool} :
    Follows runtime r (fun _ => True) (generateTokens user rememberMe) fun _ _ => True := by
  refine Outline.Triple.bind (follows_bare only_clock lasts_true) fun now => ?_
  refine Outline.Triple.bind (follows_last (q := .insertToken _) fun _ _ => rfl) fun inserted => ?_
  refine Outline.Triple.bind follows_done fun _ => ?_
  exact follows_done

theorem follows_login {email password : String} {rememberMe : Bool} : Follows runtime r
    (fun _ => True) (login runtime email password rememberMe) fun _ _ => True := by
  refine Outline.Triple.bind (follows_bare (only_send trivial) lasts_true) fun found => ?_
  refine Outline.Triple.bind (follows_bare only_orReject lasts_true) fun user => ?_
  refine Outline.Triple.bind (follows_bare (only_send trivial) lasts_true) fun locked => ?_
  refine Outline.Triple.bind (follows_bare only_require lasts_true) fun _ => ?_
  refine Outline.Triple.bind (follows_bare only_orReject lasts_true) fun passwordHash => ?_
  refine Outline.Triple.bind (follows_bare only_require lasts_true) fun _ => ?_
  refine Outline.Triple.bind (follows_bare only_require lasts_true) fun _ => ?_
  refine Outline.Triple.bind (follows_bare (only_send trivial) lasts_true) fun passkeys => ?_
  split_ifs
  · exact follows_done
  · refine Outline.Triple.bind (follows_bare only_require lasts_true) fun _ => ?_
    exact follows_generateTokens

/-- The row that was found for a refresh token, as far as it does not change. -/
def Known (runtime : Runtime) (refreshToken : String) (stored : RefreshToken) (db : Database) :
    Prop :=
  ∃ t ∈ db.tokens.values, t.tokenHash = runtime.hashToken refreshToken ∧ stored.Onward t

theorem lasts_known {refreshToken : String} {stored : RefreshToken} :
    Lasts (Known runtime refreshToken stored) := by
  rintro db db' hlater ⟨t, ht, hhash, hstored⟩
  obtain ⟨t', ht', hon⟩ := hlater.tokens t ht
  exact ⟨t', ht', hon.tokenHash.trans hhash, hstored.trans hon⟩

theorem follows_findToken {refreshToken : String} :
    Follows runtime r (fun _ => True) (findToken (runtime.hashToken refreshToken))
      fun found db => ∀ stored owner, found = some (stored, owner) →
        Known runtime refreshToken stored db ∧ ∀ user, owner = some user → user.id = stored.userId := by
  refine follows_send (q := .findToken _) (fun _ _ => trivial) ?_
  intro around before db _ _ _ stored owner hfound
  obtain ⟨t, ht, heq⟩ := Option.map_eq_some_iff.mp hfound
  cases heq
  have hhash : stored.tokenHash = runtime.hashToken refreshToken := by
    simpa using List.find?_some ht
  refine ⟨⟨stored, List.mem_of_find?_eq_some ht, hhash, .refl stored⟩, fun user huser => ?_⟩
  exact (KeyedMap.get?_eq_some_iff.mp huser).2

theorem follows_logout {refreshToken : String} :
    Follows runtime r (fun _ => True) (logout runtime refreshToken) fun _ _ => True := by
  refine Outline.Triple.bind (follows_bare (only_send trivial) lasts_true) fun found => ?_
  match found with
  | none => exact follows_done
  | some (stored, _) =>
    refine Outline.Triple.bind (follows_revokeWhere ⟨rfl, rfl, fun h => nomatch h⟩) fun _ => ?_
    exact follows_done

/-- The transaction of a refresh rests on the row that was found. -/
theorem follows_rotate {refreshToken : String} {stored : RefreshToken} {user : User}
    (hr : r = .refresh refreshToken) (huser : user.id = stored.userId) :
    Follows runtime r (Known runtime refreshToken stored) (rotate stored user) fun _ _ => True := by
  refine Outline.Triple.bind (follows_bare only_clock lasts_known) fun now => ?_
  refine Outline.Triple.bind (follows_beginUpdate lasts_known) fun update => ?_
  refine Outline.Triple.bind (follows_bare only_clock (lasts_known.and lasts_begun)) fun issued => ?_
  refine Outline.Triple.bind (follows_last (q := .commitRotation update _) ?_) fun rotated => ?_
  · rintro db ⟨⟨t, ht, hhash, hon⟩, hlt, hcriteria⟩
    refine ⟨hlt, refreshToken, hr, t, ht, hhash, hon.userId.trans huser.symm,
      congrArg some hon.familyId, ?_⟩
    intro u hu hid s hs
    rw [hcriteria u hu hid] at hs
    unfold Criteria.matches at hs
    simp only [Option.all_some, Option.all_none, Bool.and_true, Bool.and_eq_true,
      decide_eq_true_eq] at hs
    exact ⟨hs.1.1.trans hon.id.symm, hs.1.2⟩
  · refine Outline.Triple.bind follows_done fun _ => ?_
    exact follows_done

theorem follows_refresh {refreshToken : String} (hr : r = .refresh refreshToken) :
    Follows runtime r (fun _ => True) (refresh runtime refreshToken) fun _ _ => True := by
  refine Outline.Triple.bind follows_findToken fun found => ?_
  refine Outline.Triple.bind Outline.triple_orReject fun (stored, owner) => ?_
  refine Outline.triple_of_pure fun hfound => ?_
  show Follows runtime r _ (if stored.isRevoked then _ else _) _
  split_ifs
  · have hrevoke : Follows runtime r (fun _ => True)
        (revokeWhere { familyId := some stored.familyId }) fun _ _ => True :=
      follows_revokeWhere ⟨rfl, rfl, fun h => nomatch h⟩
    refine Outline.Triple.bind (hrevoke.mono (fun _ _ => trivial) fun _ _ h => h) fun _ => ?_
    exact follows_done
  · refine Outline.Triple.mono (P := fun db => Known runtime refreshToken stored db ∧
      ∀ user, owner = some user → user.id = stored.userId) ?_ (fun db h => h stored owner hfound)
      fun _ _ h => h
    refine Outline.triple_of_pure fun howner => ?_
    refine Outline.Triple.bind (follows_bare only_clock lasts_known) fun now => ?_
    refine Outline.Triple.bind (follows_bare only_require lasts_known) fun _ => ?_
    refine Outline.Triple.bind Outline.triple_orReject fun user => ?_
    exact Outline.triple_of_pure fun huser => follows_rotate hr (howner user huser)

theorem follows_resetPassword {token newPassword : String}
    (hr : r = .resetPassword token newPassword) : Follows runtime r (fun _ => True)
      (resetPassword runtime token newPassword) fun _ _ => True := by
  refine Outline.Triple.bind (follows_bare only_done lasts_true) fun _ => ?_
  refine Outline.Triple.bind (follows_bare (only_send trivial) lasts_true) fun found => ?_
  refine Outline.Triple.bind (follows_bare only_orReject lasts_true) fun user => ?_
  refine Outline.Triple.bind (follows_bare only_clock lasts_true) fun now => ?_
  refine Outline.Triple.bind (follows_bare only_require lasts_true) fun _ => ?_
  refine Outline.Triple.bind (follows_last (q := .setPassword _ _) fun _ _ => ⟨_, _, hr⟩)
    fun _ => ?_
  refine Outline.Triple.bind (follows_revokeWhere ⟨rfl, rfl, fun h => nomatch h⟩) fun _ => ?_
  exact follows_done

theorem follows_rotateSessionAfterPasswordChange {userId : Id} : Follows runtime r (fun _ => True)
    (rotateSessionAfterPasswordChange userId) fun _ _ => True := by
  refine Outline.Triple.bind SessionsService.follows_revokeAllFamilies fun _ => ?_
  refine Outline.Triple.bind (follows_bare only_findUser lasts_true) fun found => ?_
  refine Outline.Triple.bind (follows_bare only_orReject lasts_true) fun user => ?_
  exact follows_generateTokens

end AuthService

/-- Every request follows its outline. -/
theorem follows_program (r : Request) :
    Follows runtime r (fun _ => True) (r.program runtime) fun _ _ => True := by
  cases r with
  | login => exact AuthService.follows_login
  | issueTokensAfterMfa => exact AuthService.follows_generateTokens
  | logout => exact AuthService.follows_logout
  | refresh => exact AuthService.follows_refresh rfl
  | revokeFamily => exact SessionsService.follows_revokeFamily
  | revokeOtherFamilies =>
    exact Outline.Triple.bind SessionsService.follows_revokeOtherFamilies fun _ => follows_done
  | resetPassword => exact AuthService.follows_resetPassword rfl
  | rotateSessionAfterPasswordChange =>
    exact AuthService.follows_rotateSessionAfterPasswordChange

/-- A world to start from: no request is half way, and no UPDATE. -/
structure Start (w : World) : Prop where
  idle : w.Idle
  orderly : Orderly w.store
  updates : w.store.updates.values = []

/-- What holds of any world that a run comes to. -/
abbrev Reached (runtime : Runtime) (w : World) : Prop :=
  (sessionsOutline runtime).Holds (server runtime) anyTime w

theorem Start.reached {w : World} (h : Start w) : Reached runtime w :=
  Outline.holds_of_idle h.idle h.orderly fun c => nomatch c

theorem sends_anyTime (w : World) (e : Event Surroundings Request) : Sends anyTime w e := by
  cases e with
  | submit => trivial
  | advance => exact fun _ _ => trivial

theorem Reached.step {w : World} (h : Reached runtime w) (e : Event Surroundings Request) :
    Reached runtime ((server runtime).step w e) :=
  Outline.Holds.step sessionsOutline_sound (fun request _ _ => (follows_program request).proves trivial)
    h (sends_anyTime w e)

theorem Reached.run {w : World} (h : Reached runtime w) (events : List (Event Surroundings Request)) :
    Reached runtime ((server runtime).run w events) := by
  induction events generalizing w with
  | nil => exact h
  | cons e events ih => exact ih (h.step e)

/-! ## 4. The four promises -/

/-- The refresh token that a step exchanges for a new one. -/
def exchange (runtime : Runtime) (w : World) : Event Surroundings Request → Option String
  | .submit _ => none
  | .advance n _ =>
    match w.call? n with
    | some ⟨.refresh refreshToken, .commitRotation update draft, _⟩ =>
      match (w.store.commitRotation runtime update draft).1 with
      | .ok _ => some refreshToken
      | .error _ => none
    | _ => none

/-- The password reset token, as it is stored, by which a step sets a password. -/
def reset (runtime : Runtime) (w : World) : Event Surroundings Request → Option String
  | .submit _ => none
  | .advance n _ =>
    match w.call? n with
    | some ⟨.resetPassword token _, .setPassword .., _⟩ => some (runtime.hashToken token)
    | _ => none

/-- The statement commits the UPDATE of a revocation. -/
def Statement.ends (u : Update) : Statement → Bool
  | .commitRevocation update => update = u.id
  | _ => false

/-- The step ends a revocation whose UPDATE saw a token of the family. -/
def Completes (w : World) : Event Surroundings Request → Id → Prop
  | .submit _, _ => False
  | .advance n _, familyId => ∃ u ∈ w.store.updates.values,
      (w.call? n).any (fun call => call.statement.ends u) = true ∧ w.store.Covers u familyId

instance (w : World) (familyId : Id) :
    (e : Event Surroundings Request) → Decidable (Completes w e familyId)
  | .submit _ => isFalse fun h => h
  | .advance n _ => inferInstanceAs (Decidable (∃ u ∈ w.store.updates.values,
      (w.call? n).any (fun call => call.statement.ends u) = true ∧ w.store.Covers u familyId))

variable (runtime) (w : World) (events : List (Event Surroundings Request))

/-- Each refresh token is exchanged at most once. -/
def ExchangedOnce : Prop := ((server runtime).collect (exchange runtime) w events).Nodup

/-- At any time each family has at most one token that is neither revoked nor expired. -/
def OneLive : Prop :=
  ∀ before after, events = before ++ after → ∀ now,
    ∀ t ∈ ((server runtime).run w before).store.tokens.values,
    ∀ t' ∈ ((server runtime).run w before).store.tokens.values,
      t.familyId = t'.familyId → t.isLive now → t'.isLive now → t = t'

/-- After a revocation no token of a family that it covered is usable. -/
def StaysRevoked : Prop :=
  ∀ before e after familyId, events = before ++ e :: after →
    Completes ((server runtime).run w before) e familyId →
    ∀ now, ∀ t ∈ ((server runtime).run w events).store.tokens.values,
      t.familyId = familyId → ¬ t.isLive now

/-- Each password reset token sets a password at most once. -/
def ResetOnce : Prop := ((server runtime).collect (reset runtime) w events).Nodup

instance : Decidable (ResetOnce runtime w events) :=
  inferInstanceAs (Decidable ((server runtime).collect (reset runtime) w events).Nodup)

end

/-! ## 5. What each rests on -/

section

variable {runtime : Runtime} {w : World} {e : Event Surroundings Request}
  {events : List (Event Surroundings Request)} {familyId : Id}

/-- A property of the tables that every statement keeps is kept by a step. -/
theorem Reached.keeps (h : Reached runtime w) {F : Database → Prop} (hF : F w.store)
    (hstep : ∀ n input call, e = .advance n input → w.call? n = some call →
      Effect runtime w.store call.statement (call.statement.exec runtime input w.store).2 →
      Ready runtime call.request call.statement w.store →
      F (call.statement.exec runtime input w.store).2) :
    F ((server runtime).step w e).store := by
  obtain hsame | ⟨n, input, call, he, hcall, hstore⟩ := (server runtime).store_step w e
  · rw [hsame]
    exact hF
  · rw [hstore]
    exact hstep n input call he hcall (effect_exec runtime call.statement input w.store)
      (h.pre n call hcall)

theorem Reached.closed (h : Reached runtime w) (hclosed : Closed familyId w.store) :
    Closed familyId ((server runtime).step w e).store :=
  h.keeps hclosed fun _ _ _ _ _ heffect hready => heffect.closed h.inv hready hclosed

theorem Reached.closed_run (h : Reached runtime w) (hclosed : Closed familyId w.store) :
    Closed familyId ((server runtime).run w events).store := by
  have hall : (server runtime).EachStep (fun _ _ => True) w events :=
    .of_forall (fun _ _ => trivial) events
  exact (hall.keeps (I := fun w => Reached runtime w ∧ Closed familyId w.store)
    (fun w e hboth _ => ⟨hboth.1.step e, hboth.1.closed hboth.2⟩) ⟨h, hclosed⟩).2

theorem Reached.swept (h : Reached runtime w) (hswept : Swept w.store)
    (hapart : Sends Apart w e) : Swept ((server runtime).step w e).store := by
  refine h.keeps hswept fun n input call he hcall heffect hready => ?_
  subst he
  exact heffect.swept h.inv hready (hapart call hcall) hswept

/-- The refresh token of a row that is revoked. -/
def Spent (runtime : Runtime) (refreshToken : String) (w : World) : Prop :=
  ∃ t ∈ w.store.tokens.values, t.tokenHash = runtime.hashToken refreshToken ∧ t.isRevoked = true

theorem Reached.spent (h : Reached runtime w) {refreshToken : String}
    (hspent : Spent runtime refreshToken w) :
    Spent runtime refreshToken ((server runtime).step w e) := by
  refine h.keeps (F := fun db => ∃ t ∈ db.tokens.values,
    t.tokenHash = runtime.hashToken refreshToken ∧ t.isRevoked = true) hspent
    fun n input call _ _ heffect _ => ?_
  obtain ⟨t, ht, hhash, hrevoked⟩ := hspent
  obtain ⟨t', ht', hon⟩ := (heffect.later h.inv).tokens t ht
  exact ⟨t', ht', hon.tokenHash.trans hhash, hon.isRevoked hrevoked⟩

theorem exchange_eq_some {refreshToken : String} (h : exchange runtime w e = some refreshToken) :
    ∃ n input call update draft token, e = .advance n input ∧ w.call? n = some call ∧
      call.request = .refresh refreshToken ∧ call.statement = .commitRotation update draft ∧
      (w.store.commitRotation runtime update draft).1 = .ok token := by
  cases e with
  | submit => cases h
  | advance n input =>
    unfold exchange at h
    dsimp only at h
    split at h
    · rename_i refreshToken' update draft next hcall
      split at h
      · rename_i token hok
        cases h
        exact ⟨n, input, _, update, draft, token, rfl, hcall, rfl, rfl, hok⟩
      · cases h
    · cases h

/-- An exchange spends a token that was not spent. -/
theorem Reached.exchange (h : Reached runtime w) {refreshToken : String}
    (hseen : exchange runtime w e = some refreshToken) :
    ¬ Spent runtime refreshToken w ∧ Spent runtime refreshToken ((server runtime).step w e) := by
  obtain ⟨n, input, ⟨request, statement, next⟩, update, draft, token, rfl, hcall, hr, hq, hok⟩ :=
    exchange_eq_some hseen
  cases hr
  cases hq
  have hready := h.pre n _ hcall
  obtain ⟨u, hu, rfl, ⟨t, ht, haffects⟩, -, hdb⟩ := commitRotation_eq_ok hok
  obtain ⟨⟨_, hsame, hhash⟩, -, -, hopen⟩ := hready.rotated hu ht haffects
  cases hsame
  refine ⟨?_, ?_⟩
  · rintro ⟨s, hs, hshash, hrevoked⟩
    obtain rfl : s = t := h.inv.hashes s hs t ht (hshash.trans hhash.symm)
    rw [hopen] at hrevoked
    cases hrevoked
  · have hstore : ((server runtime).step w (.advance n input)).store =
        (w.store.endUpdate u).2.withRow runtime draft := by
      rw [Server.step_advance hcall]
      exact hdb
    unfold Spent
    rw [hstore]
    refine ⟨Database.setRevoked u t, ?_, ?_, isRevoked_setRevoked haffects⟩
    · exact (mem_withRow h.inv.endUpdate).mpr (.inr (mem_endUpdate.mpr ⟨t, ht, rfl⟩))
    · rw [setRevoked_onward.tokenHash, hhash]

/-- No user has the reset token. -/
def Consumed (tokenHash : String) (w : World) : Prop :=
  ∀ user ∈ w.store.users.values, user.passwordResetToken ≠ some tokenHash

theorem Reached.consumed (h : Reached runtime w) {tokenHash : String}
    (hconsumed : Consumed tokenHash w) : Consumed tokenHash ((server runtime).step w e) := by
  refine h.keeps (F := fun db => ∀ user ∈ db.users.values, user.passwordResetToken ≠ some tokenHash)
    hconsumed fun n input call _ _ heffect _ => ?_
  intro user huser htoken
  exact hconsumed user ((heffect.later h.inv).resetTokens user huser tokenHash htoken) htoken

theorem reset_eq_some {tokenHash : String} (h : reset runtime w e = some tokenHash) :
    ∃ n input call token newPassword userId passwordHash, e = .advance n input ∧
      w.call? n = some call ∧ call.request = .resetPassword token newPassword ∧
      call.statement = .setPassword userId passwordHash ∧
      tokenHash = runtime.hashToken token := by
  cases e with
  | submit => cases h
  | advance n input =>
    unfold reset at h
    dsimp only at h
    split at h
    · rename_i token newPassword userId passwordHash next hcall
      cases h
      exact ⟨n, input, _, token, newPassword, userId, passwordHash, rfl, hcall, rfl, rfl, rfl⟩
    · cases h

/-- A reset that finds its token where it read it consumes it. -/
theorem Reached.reset (h : Reached runtime w) {tokenHash : String}
    (hunspent : Sends (Unspent runtime) w e) (hseen : reset runtime w e = some tokenHash) :
    ¬ Consumed tokenHash w ∧ Consumed tokenHash ((server runtime).step w e) := by
  obtain ⟨n, input, ⟨request, statement, next⟩, token, newPassword, userId, passwordHash, rfl,
    hcall, hr, hq, rfl⟩ := reset_eq_some hseen
  cases hr
  cases hq
  obtain ⟨user, huser, rfl, htoken⟩ := hunspent _ hcall token rfl userId rfl
  refine ⟨fun hconsumed => hconsumed user huser htoken, ?_⟩
  have hstore : ((server runtime).step w (.advance n input)).store =
      w.store.withPassword user passwordHash := by
    rw [Server.step_advance hcall]
    show w.store.setPassword user.id passwordHash = _
    unfold Database.setPassword
    rw [KeyedMap.get?_eq_some_iff.mpr ⟨huser, rfl⟩]
  intro other hother hagain
  rw [hstore] at hother
  obtain ⟨hmem, hne⟩ := mem_withPassword hother hagain
  exact hne (congrArg User.id (h.inv.resetTokens other hmem user huser _ hagain htoken))

end

/-! ## 6. Runs -/

section

variable {runtime : Runtime} {w : World} {events : List (Event Surroundings Request)}

theorem Reached.exchangedOnce (h : Reached runtime w) : ExchangedOnce runtime w events := by
  have hall : (server runtime).EachStep (fun _ _ => True) w events :=
    .of_forall (fun _ _ => trivial) events
  exact hall.nodup_collect (Spent runtime) (fun _ e hw _ => hw.step e)
    (fun _ _ _ hw _ hseen => hw.exchange hseen) (fun _ _ _ hw _ hspent => hw.spent hspent) h

theorem Reached.oneLive (h : Reached runtime w) : OneLive runtime w events := by
  intro before after _ now t ht t' ht' hfamily hlive hlive'
  exact (h.run before).inv.oneOpen t ht t' ht' hfamily hlive.1 hlive'.1

theorem Reached.completed (h : Reached runtime w) (hswept : Swept w.store)
    {e : Event Surroundings Request} {familyId : Id} (hdone : Completes w e familyId) :
    Closed familyId ((server runtime).step w e).store := by
  cases e with
  | submit => cases hdone
  | advance n input =>
    obtain ⟨u, hu, hends, hcovers⟩ := hdone
    cases hcall : w.call? n with
    | none =>
      rw [hcall] at hends
      cases hends
    | some call =>
      rw [hcall] at hends
      obtain ⟨request, statement, next⟩ := call
      unfold Statement.ends at hends
      cases statement with
      | commitRevocation update =>
        obtain rfl : update = u.id := of_decide_eq_true hends
        have hready := h.pre n _ hcall
        have hstore : ((server runtime).step w (.advance n input)).store =
            (w.store.endUpdate u).2 := by
          rw [Server.step_advance hcall]
          show (w.store.commitRevocation u.id).2 = _
          unfold Database.commitRevocation
          rw [KeyedMap.get?_eq_some_iff.mpr ⟨hu, rfl⟩]
        rw [hstore]
        exact closed_endUpdate h.inv hswept hu (hready.2 u hu rfl) hcovers
      | _ => cases hends

theorem Reached.staysRevoked (h : Reached runtime w) (hswept : Swept w.store)
    (hapart : (server runtime).EachStep (Sends Apart) w events) :
    StaysRevoked runtime w events := by
  intro before e after familyId hevents hdone now t ht hfamily hlive
  subst hevents
  obtain ⟨hbefore, -⟩ := Server.EachStep.append.mp hapart
  have hthere : Reached runtime ((server runtime).run w before) ∧
      Swept ((server runtime).run w before).store :=
    hbefore.keeps (I := fun w => Reached runtime w ∧ Swept w.store)
      (fun w e hw he => ⟨hw.1.step e, hw.1.swept hw.2 he⟩) ⟨h, hswept⟩
  have hclosed : Closed familyId ((server runtime).run w (before ++ e :: after)).store := by
    rw [Server.run_append]
    exact (hthere.1.step e).closed_run (hthere.1.completed hthere.2 hdone)
  have hopen := hlive.1
  rw [hclosed.revoked t ht hfamily] at hopen
  cases hopen

theorem Reached.resetOnce (h : Reached runtime w)
    (hunspent : (server runtime).EachStep (Sends (Unspent runtime)) w events) :
    ResetOnce runtime w events :=
  hunspent.nodup_collect Consumed (fun _ e hw _ => hw.step e)
    (fun _ _ _ hw he hseen => hw.reset he hseen) (fun _ _ _ hw _ hused => hw.consumed hused) h

theorem Start.swept (h : Start w) : Swept w.store := by
  intro u hu
  rw [h.updates] at hu
  cases hu

/-- **Refresh token families.** In every run each refresh token is exchanged once and each family
has one live token.  Where no refresh commits inside a revocation of its family, what is revoked
stays so; where each reset still finds its token with the user, each reset token is spent once. -/
theorem refresh_token_families (hstart : Start w) :
    (ExchangedOnce runtime w events ∧ OneLive runtime w events) ∧
      ((server runtime).EachStep (Sends Apart) w events → StaysRevoked runtime w events) ∧
      ((server runtime).EachStep (Sends (Unspent runtime)) w events →
        ResetOnce runtime w events) :=
  ⟨⟨hstart.reached.exchangedOnce, hstart.reached.oneLive⟩,
    hstart.reached.staysRevoked hstart.swept, hstart.reached.resetOnce⟩

end

/-! ## 7. The two races -/

/-- Hashes that are the texts themselves, and one more letter for each token drawn. -/
def plainRuntime : Runtime where
  hashToken token := token
  uuidv4 n := String.ofList (List.replicate n 'x')
  hashPassword password := password
  comparePassword password passwordHash := password = passwordHash

/-- One user with a session and a reset token. -/
def oneSession : World where
  store :=
    { tokens := KeyedMap.empty.set ⟨2, 1, "token", 3, false, 1000, false⟩
      users := KeyedMap.empty.set ⟨1, some "Password1", true, false, some "reset", none⟩
      updates := KeyedMap.empty
      drawn := 4 }
  calls := []

def quiet : Surroundings := ⟨0, fun _ => some 1, fun _ => false, fun _ => ⟨false, 0⟩, fun _ _ => false⟩

/-- Request `n` goes on by `k` statements. -/
def goOn (n k : Nat) : List (Event Surroundings Request) := List.replicate k (.advance n quiet)

theorem oneSession_start : Start oneSession where
  idle := by decide
  orderly := by
    have htokens : oneSession.store.tokens.values =
        [⟨2, 1, "token", 3, false, 1000, false⟩] := rfl
    have husers : oneSession.store.users.values =
        [⟨1, some "Password1", true, false, some "reset", none⟩] := rfl
    constructor
    · rw [htokens]
      decide
    · rw [htokens]
      decide
    · rw [htokens]
      intro t ht t' ht' _
      rw [List.mem_singleton.mp ht, List.mem_singleton.mp ht']
    · rw [htokens]
      decide
    · rw [htokens]
      intro t ht t' ht' _ _ _
      rw [List.mem_singleton.mp ht, List.mem_singleton.mp ht']
    · rw [husers]
      intro u hu u' hu' _ _ _
      rw [List.mem_singleton.mp hu, List.mem_singleton.mp hu']
    · exact fun u hu => nomatch hu
  updates := rfl

/-- A logout that runs after a refresh. -/
def refreshThenLogout : List (Event Surroundings Request) :=
  [.submit (.refresh "token")] ++ goOn 0 6 ++ [.submit (.logout "token")] ++ goOn 1 3 ++
    [.submit (.resetPassword "reset" "Password2")] ++ goOn 2 5

theorem refresh_token_families_refreshThenLogout :
    StaysRevoked plainRuntime oneSession refreshThenLogout ∧
      ResetOnce plainRuntime oneSession refreshThenLogout :=
  ⟨(refresh_token_families oneSession_start).2.1 (by decide +kernel),
    (refresh_token_families oneSession_start).2.2 (by decide +kernel)⟩

/-- A logout whose UPDATE begins before a refresh commits and ends after it. -/
def logoutAroundRefresh : List (Event Surroundings Request) :=
  [.submit (.refresh "token"), .submit (.logout "token")] ++ goOn 0 5 ++ goOn 1 2 ++ goOn 0 1

/-- Two resets that read the user before either saves its password. -/
def twoResets : List (Event Surroundings Request) :=
  [.submit (.resetPassword "reset" "Password2"), .submit (.resetPassword "reset" "Password3")] ++
    goOn 0 2 ++ goOn 1 2 ++ goOn 0 1 ++ goOn 1 1

/-- The token that the refresh inserts outlives the logout, and one reset token sets two
passwords. -/
theorem refresh_token_families_raced : Start oneSession ∧
    ¬ StaysRevoked plainRuntime oneSession (logoutAroundRefresh ++ goOn 1 1) ∧
      ¬ ResetOnce plainRuntime oneSession twoResets := by
  refine ⟨oneSession_start, fun h => ?_, by decide +kernel⟩
  exact h logoutAroundRefresh (.advance 1 quiet) [] 3 rfl (by decide +kernel) 0
    ⟨6, 1, "xxxxxx", 3, false, 7 * AuthService.day, false⟩ (by decide +kernel) rfl
    ⟨rfl, by decide⟩

end Clemvion.Auth
