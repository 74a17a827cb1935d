import Ticketing.Auth.Auth
import Ticketing.Lib.Runs

/-!
# Usernames under concurrent registration

`auth_register` looks for its username in one table call and inserts the user in another; nothing
is held in between.  Any number of `auth_register` and `auth_login` calls are interleaved here, one
table call or one section of `auth->mutex` at a time.

* `AuthSys`, `AuthSys.step` — the users table, the sessions and the calls.
* `AuthSys.Alone` — a username is looked for only while no other registration of it stands between
  its scan and its insertion, and the scan reads every page.
* `usernames_unique` — in runs of such steps usernames stay unique and at most one registration of a
  username succeeds; `usernames_collide` is a run in which two do.
-/

set_option autoImplicit false

namespace Ticketing

open CText

/-- One call with its arguments. -/
inductive AuthCall where
  | register (username password : CStr) (role : UserRole)
  | login (clientFd : Int) (username password : CStr)
  deriving DecidableEq, Repr

/-- Where a call stands: before its scan, before its insertion, before its critical section. -/
inductive AuthPc where
  | scan
  | insert
  | session (userId : Nat) (user : UserRecord)
  deriving DecidableEq, Repr

/-- A call that has not been made, is running, or has returned a result and an id. -/
inductive AuthProc where
  | idle
  | running (c : AuthCall) (pc : AuthPc)
  | done (c : AuthCall) (rc : EtpResult) (out : Option Nat)
  deriving DecidableEq, Repr

/-- What the calls share, and the calls. -/
structure AuthSys where
  users : OTable UserRecord
  auth : AuthManager
  procs : Nat → AuthProc

/-- Who moves, at what time and with what luck. -/
inductive AuthAct where
  | start (i : Nat) (c : AuthCall)
  | run (i : Nat) (now : Int) (fault : TableFault)

namespace AuthSys

/-- The call `i` goes on to `p`. -/
def goto (s : AuthSys) (i : Nat) (p : AuthProc) : AuthSys :=
  { s with procs := Function.update s.procs i p }

@[simp] theorem goto_self (s : AuthSys) (i : Nat) (p : AuthProc) : (s.goto i p).procs i = p := by
  simp [goto]

@[simp] theorem goto_ne {s : AuthSys} {i j : Nat} {p : AuthProc} (h : j ≠ i) :
    (s.goto i p).procs j = s.procs j := by
  simp [goto, h]

/-- One step of one call. -/
def runStep (s : AuthSys) (i : Nat) (now : Int) (fault : TableFault) :
    AuthCall → AuthPc → Option AuthSys
  | .register username password role, .scan =>
    match authRegisterScan s.users username password fault with
    | some rc => some (s.goto i (.done (.register username password role) rc none))
    | none => some (s.goto i (.running (.register username password role) .insert))
  | .register username password role, .insert =>
    (authRegisterInsert s.users username password role now fault).map fun r =>
      { s.goto i (.done (.register username password role) r.2.1 r.2.2) with users := r.1 }
  | .login fd username password, .scan =>
    match authLoginScan s.users username password fault with
    | some r => some (s.goto i (.running (.login fd username password) (.session r.1 r.2)))
    | none => some (s.goto i (.done (.login fd username password) .errAuth none))
  | .login fd username password, .session userId user =>
    let r := authLoginSection s.auth fd userId user
    some { s.goto i (.done (.login fd username password) r.2 none) with auth := r.1 }
  | _, _ => none

/-- One step of the system. -/
def step (s : AuthSys) : AuthAct → Option AuthSys
  | .start i c => if s.procs i = .idle then some (s.goto i (.running c .scan)) else none
  | .run i now fault =>
    match s.procs i with
    | .running c pc => s.runStep i now fault c pc
    | _ => none

/-- No call has been made. -/
def init (users : OTable UserRecord) : AuthSys := ⟨users, authCreate, fun _ => .idle⟩

/-- Call `i` is a registration of `username` between its scan and its insertion. -/
def Inserting (s : AuthSys) (i : Nat) (username : CStr) : Prop :=
  ∃ password role, s.procs i = .running (.register username password role) .insert

/-- A registration scans for its username only while no other registration of it is about to
insert, and its scan reads every page. -/
def Alone (s : AuthSys) : AuthAct → Prop
  | .start _ _ => True
  | .run i _ fault => ∀ username password role,
      s.procs i = .running (.register username password role) .scan →
      (∀ j, ¬ s.Inserting j username) ∧ ∀ skipped, fault ≠ .unread skipped

/-- No two users have the same name. -/
def Unique (users : OTable UserRecord) : Prop :=
  ∀ id id' u u', users.get? id = some u → users.get? id' = some u' → u.username = u'.username →
    id = id'

/-- Call `i` has registered `username` under `id`. -/
def Registered (s : AuthSys) (i : Nat) (username : CStr) (id : Nat) : Prop :=
  ∃ password role, s.procs i = .done (.register username password role) .ok (some id)

/-- The names of the users and of the registrations about to insert are all different, and every
successful registration has a row of its own. -/
structure Inv (s : AuthSys) : Prop where
  unique : Unique s.users
  fresh : ∀ i username, s.Inserting i username →
    ∀ id u, s.users.get? id = some u → u.username ≠ username
  single : ∀ i j username, s.Inserting i username → s.Inserting j username → i = j
  valid : ∀ i username password role,
    s.procs i = .running (.register username password role) .insert →
      registerArgsOk username password = true
  stored : ∀ i username id, s.Registered i username id →
    ∃ u, s.users.get? id = some u ∧ u.username = username
  own : ∀ i j username username' id, s.Registered i username id → s.Registered j username' id →
    i = j
  answered : ∀ i username password role out,
    s.procs i = .done (.register username password role) .ok out → ∃ id, out = some id

theorem inv_init {users : OTable UserRecord} (h : Unique users) : (init users).Inv where
  unique := h
  fresh := fun _ _ ⟨_, _, hp⟩ => by cases hp
  single := fun _ _ _ ⟨_, _, hp⟩ => by cases hp
  valid := fun _ _ _ _ hp => by cases hp
  stored := fun _ _ _ ⟨_, _, hp⟩ => by cases hp
  own := fun _ _ _ _ _ ⟨_, _, hp⟩ => by cases hp
  answered := fun _ _ _ _ _ hp => by cases hp

/-! ## One step -/

section Step

variable {s : AuthSys} {i j : Nat} {p : AuthProc}

theorem inserting_goto {username : CStr} (h : (s.goto i p).Inserting j username)
    (hp : ∀ name password role, p ≠ .running (.register name password role) .insert) :
    s.Inserting j username := by
  obtain ⟨password, role, hj⟩ := h
  rcases eq_or_ne j i with rfl | hne
  · rw [goto_self] at hj
    exact absurd hj (hp _ _ _)
  · rw [goto_ne hne] at hj
    exact ⟨password, role, hj⟩

theorem registered_goto {username : CStr} {id : Nat} (h : (s.goto i p).Registered j username id)
    (hp : ∀ name password role, p ≠ .done (.register name password role) .ok (some id)) :
    s.Registered j username id := by
  obtain ⟨password, role, hj⟩ := h
  rcases eq_or_ne j i with rfl | hne
  · rw [goto_self] at hj
    exact absurd hj (hp _ _ _)
  · rw [goto_ne hne] at hj
    exact ⟨password, role, hj⟩

/-- A move of a call that neither starts an insertion nor ends one. -/
theorem Inv.goto (h : s.Inv)
    (hins : ∀ name password role, p ≠ .running (.register name password role) .insert)
    (hdone : ∀ name password role out, p ≠ .done (.register name password role) .ok out) :
    (s.goto i p).Inv where
  unique := h.unique
  fresh := fun j name hj => h.fresh j name (inserting_goto hj hins)
  single := fun j k name hj hk =>
    h.single j k name (inserting_goto hj hins) (inserting_goto hk hins)
  valid := by
    intro j name password role hj
    rcases eq_or_ne j i with rfl | hne
    · rw [goto_self] at hj
      exact absurd hj (hins _ _ _)
    · rw [goto_ne hne] at hj
      exact h.valid j name password role hj
  stored := fun j name id hj =>
    h.stored j name id (registered_goto hj (fun a b c => hdone a b c _))
  own := fun j k name name' id hj hk =>
    h.own j k name name' id (registered_goto hj (fun a b c => hdone a b c _))
      (registered_goto hk (fun a b c => hdone a b c _))
  answered := by
    intro j name password role out hj
    rcases eq_or_ne j i with rfl | hne
    · rw [goto_self] at hj
      exact absurd hj (hdone _ _ _ _)
    · rw [goto_ne hne] at hj
      exact h.answered j name password role out hj

/-- A registration that finds its name unused goes on to its insertion. -/
theorem Inv.scanned (h : s.Inv) {username password : CStr} {role : UserRole}
    (hargs : registerArgsOk username password = true)
    (hfree : ∀ id u, s.users.get? id = some u → u.username ≠ username)
    (halone : ∀ j, ¬ s.Inserting j username) :
    (s.goto i (.running (.register username password role) .insert)).Inv := by
  -- whoever is about to insert is this call, or was before
  have hcases : ∀ {j : Nat} {name : CStr},
      (s.goto i (.running (.register username password role) .insert)).Inserting j name →
      j = i ∧ name = username ∨ s.Inserting j name := by
    rintro j name ⟨password', role', hj⟩
    rcases eq_or_ne j i with rfl | hne
    · rw [goto_self] at hj
      cases hj
      exact Or.inl ⟨rfl, rfl⟩
    · rw [goto_ne hne] at hj
      exact Or.inr ⟨password', role', hj⟩
  have hreg : ∀ {j : Nat} {name : CStr} {id : Nat},
      (s.goto i (.running (.register username password role) .insert)).Registered j name id →
      s.Registered j name id := fun hj => registered_goto hj (fun _ _ _ => by simp)
  refine ⟨h.unique, ?_, ?_, ?_, fun j name id hj => h.stored j name id (hreg hj),
    fun j k name name' id hj hk => h.own j k name name' id (hreg hj) (hreg hk), ?_⟩
  · intro j name hj id u hu
    obtain ⟨-, rfl⟩ | hold := hcases hj
    · exact hfree id u hu
    · exact h.fresh j name hold id u hu
  · intro j k name hj hk
    obtain ⟨rfl, rfl⟩ | hoj := hcases hj
    · obtain ⟨rfl, -⟩ | hok := hcases hk
      · rfl
      · exact absurd hok (halone k)
    · obtain ⟨rfl, rfl⟩ | hok := hcases hk
      · exact absurd hoj (halone j)
      · exact h.single j k name hoj hok
  · intro j name password' role' hj
    rcases eq_or_ne j i with rfl | hne
    · rw [goto_self] at hj
      cases hj
      exact hargs
    · rw [goto_ne hne] at hj
      exact h.valid j name password' role' hj
  · intro j name password' role' out hj
    rcases eq_or_ne j i with rfl | hne
    · rw [goto_self] at hj
      cases hj
    · rw [goto_ne hne] at hj
      exact h.answered j name password' role' out hj

/-- An insertion adds the name its call has looked for. -/
theorem Inv.inserted (h : s.Inv) {username password : CStr} {role : UserRole} {now : Int}
    {fault : TableFault} {users : OTable UserRecord} {r : Except EtpResult Nat}
    (hp : s.procs i = .running (.register username password role) .insert)
    (hins : insertRecord s.users (newUser username password role now) fault = some (users, r))
    {rc : EtpResult} {out : Option Nat}
    (hrc : rc = .ok → ∃ id, out = some id ∧ r = .ok id) :
    Inv { s.goto i (.done (.register username password role) rc out) with users := users } := by
  have hself : s.Inserting i username := ⟨password, role, hp⟩
  have hname := newUser_username (h.valid i _ _ _ hp) role now
  have hnew := fun {id : Nat} {u : UserRecord} (hu : users.get? id = some u) =>
    insertRecord_get? hins hu
  have hothers : ∀ {j : Nat} {name : CStr},
      Inserting { s.goto i (.done (.register username password role) rc out) with users := users }
        j name → s.Inserting j name ∧ name ≠ username := by
    rintro j name ⟨password', role', hj⟩
    have hji : j ≠ i := by
      rintro rfl
      simp only [goto_self] at hj
      cases hj
    simp only [goto_ne hji] at hj
    have hold : s.Inserting j name := ⟨password', role', hj⟩
    refine ⟨hold, ?_⟩
    rintro rfl
    exact hji (h.single j i name hold hself)
  -- the registrations that have succeeded: those of before, and this one under the new id
  have hreg : ∀ {j : Nat} {name : CStr} {id : Nat},
      Registered { s.goto i (.done (.register username password role) rc out) with users := users }
        j name id →
      s.Registered j name id ∨ j = i ∧ name = username ∧ id = s.users.nextId ∧
        users = s.users.insert (newUser username password role now) := by
    rintro j name id ⟨password', role', hj⟩
    rcases eq_or_ne j i with rfl | hne
    · simp only [goto_self, AuthProc.done.injEq,
        AuthCall.register.injEq] at hj
      obtain ⟨⟨rfl, -, -⟩, hok, hout⟩ := hj
      obtain ⟨id', hout', hr⟩ := hrc hok
      obtain rfl : id' = id := Option.some.inj (hout'.symm.trans hout)
      rw [hr] at hins
      obtain ⟨hid, htable⟩ := insertRecord_ok hins
      exact Or.inr ⟨rfl, rfl, hid, htable⟩
    · simp only [goto_ne hne] at hj
      exact Or.inl ⟨password', role', hj⟩
  refine ⟨?_, ?_, fun j k name hj hk => h.single j k name (hothers hj).1 (hothers hk).1, ?_, ?_, ?_,
    ?_⟩
  · intro id id' u u' hu hu' he
    obtain hu | ⟨rfl, rfl⟩ := hnew hu
    · obtain hu' | ⟨rfl, rfl⟩ := hnew hu'
      · exact h.unique id id' u u' hu hu' he
      · exact absurd (he.trans hname) (h.fresh i username hself id u hu)
    · obtain hu' | ⟨rfl, rfl⟩ := hnew hu'
      · exact absurd (he.symm.trans hname) (h.fresh i username hself id' u' hu')
      · rfl
  · intro j name hj id u hu
    obtain ⟨hold, hne⟩ := hothers hj
    obtain hu | ⟨-, rfl⟩ := hnew hu
    · exact h.fresh j name hold id u hu
    · rw [hname]
      exact Ne.symm hne
  · intro j name password' role' hj
    rcases eq_or_ne j i with rfl | hne
    · simp only [goto_self] at hj
      cases hj
    · simp only [goto_ne hne] at hj
      exact h.valid j name password' role' hj
  · intro j name id hj
    obtain hold | ⟨-, rfl, rfl, htable⟩ := hreg hj
    · obtain ⟨u, hu, hun⟩ := h.stored j name id hold
      exact ⟨u, insertRecord_keeps hins hu, hun⟩
    · exact ⟨_, by simp only [htable]; exact OTable.get?_insert_self _ _, hname⟩
  · intro j k name name' id hj hk
    -- an id handed out before is below the counter
    have hbefore : ∀ {j : Nat} {name : CStr}, s.Registered j name s.users.nextId → False := by
      intro j name hj
      obtain ⟨u, hu, -⟩ := h.stored j name _ hj
      exact Nat.lt_irrefl _ (OTable.get?_lt hu)
    obtain hoj | ⟨rfl, -, rfl, -⟩ := hreg hj
    · obtain hok | ⟨rfl, -, rfl, -⟩ := hreg hk
      · exact h.own j k name name' id hoj hok
      · exact (hbefore hoj).elim
    · obtain hok | ⟨rfl, -, -, -⟩ := hreg hk
      · exact (hbefore hok).elim
      · rfl
  · intro j name password' role' out' hj
    rcases eq_or_ne j i with rfl | hne
    · simp only [goto_self, AuthProc.done.injEq] at hj
      obtain ⟨-, hok, rfl⟩ := hj
      obtain ⟨id, hout, -⟩ := hrc hok
      exact ⟨id, hout⟩
    · simp only [goto_ne hne] at hj
      exact h.answered j name password' role' out' hj

theorem Inv.step {s' : AuthSys} {a : AuthAct} (h : s.Inv) (hok : s.Alone a)
    (hs : s.step a = some s') : s'.Inv := by
  cases a with
  | start i c =>
    simp only [AuthSys.step] at hs
    split at hs
    · cases hs
      exact h.goto (fun _ _ _ => by simp) (fun _ _ _ _ => by simp)
    · cases hs
  | run i now fault =>
    simp only [AuthSys.step] at hs
    split at hs
    · rename_i c pc hp
      unfold AuthSys.runStep at hs
      split at hs
      · rename_i username password role
        split at hs
        · rename_i rc hscan
          cases hs
          have hne := authRegisterScan_ne_ok hscan
          exact h.goto (fun _ _ _ => by simp) (fun _ _ _ _ => by simp [hne])
        · rename_i hscan
          cases hs
          obtain ⟨halone, hread⟩ := hok username password role hp
          obtain ⟨hargs, hfree⟩ := authRegisterScan_none hread hscan
          exact h.scanned hargs hfree halone
      · rename_i username password role
        obtain ⟨r, hr, rfl⟩ := Option.map_eq_some_iff.mp hs
        obtain ⟨⟨users, res⟩, hins, rfl⟩ := Option.map_eq_some_iff.mp hr
        cases res with
        | ok id => exact h.inserted hp hins (fun _ => ⟨id, rfl, rfl⟩)
        | error rc => exact h.inserted hp hins (fun hok => absurd hok (insertRecord_error hins))
      · split at hs <;> cases hs <;>
          exact h.goto (fun _ _ _ => by simp) (fun _ _ _ _ => by simp)
      · rename_i fd username password userId user
        cases hs
        -- the sessions are no part of the invariant
        have hmove : (s.goto i (.done (.login fd username password)
            (authLoginSection s.auth fd userId user).2 none)).Inv :=
          h.goto (fun _ _ _ => by simp) (fun _ _ _ _ => by simp)
        exact ⟨hmove.unique, hmove.fresh, hmove.single, hmove.valid, hmove.stored, hmove.own,
          hmove.answered⟩
      · cases hs
    · cases hs

end Step

end AuthSys

/-! ## Whole runs -/

/-- **Usernames stay unique** as long as no two registrations of one username overlap between scan
and insertion: no two users share a name in any state of such a run, and at most one registration
of a username returns `ETP_OK`. -/
theorem usernames_unique {users : OTable UserRecord} (hu : AuthSys.Unique users) {s : AuthSys}
    (h : Reachable AuthSys.step AuthSys.Alone (AuthSys.init users) s) :
    AuthSys.Unique s.users ∧
      ∀ i j username password password' role role' out out',
        s.procs i = .done (.register username password role) .ok out →
        s.procs j = .done (.register username password' role') .ok out' → i = j := by
  have inv : s.Inv :=
    Reachable.invariant (AuthSys.inv_init hu) (fun _ _ _ hi hok hs => hi.step hok hs) h
  refine ⟨inv.unique, ?_⟩
  intro i j username password password' role role' out out' hi hj
  obtain ⟨id, rfl⟩ := inv.answered i _ _ _ _ hi
  obtain ⟨id', rfl⟩ := inv.answered j _ _ _ _ hj
  obtain ⟨u, hu, hun⟩ := inv.stored i username id ⟨password, role, hi⟩
  obtain ⟨u', hu', hun'⟩ := inv.stored j username id' ⟨password', role', hj⟩
  have hid : id = id' := inv.unique id id' u u' hu hu' (hun.trans hun'.symm)
  subst hid
  exact inv.own i j username username id ⟨password, role, hi⟩ ⟨password', role', hj⟩

/-! ## Runs -/

namespace AuthSys

/-- The username call `i` is about to insert. -/
def inserting? (s : AuthSys) (i : Nat) : Option CStr :=
  match s.procs i with
  | .running (.register username _ _) .insert => some username
  | _ => none

/-- `Alone` for a step in which storage does not fail, to be evaluated when only the first `n` calls
have been made. -/
def isAlone (n : Nat) (s : AuthSys) : AuthAct → Bool
  | .start i _ => decide (i < n)
  | .run i _ .none =>
    match s.procs i with
    | .running (.register username _ _) .scan =>
      (List.range n).all (fun j => s.inserting? j != some username)
    | _ => true
  | _ => false

/-- Only the first `n` calls have been made. -/
def Within (n : Nat) (s : AuthSys) : Prop := ∀ i, n ≤ i → s.procs i = .idle

theorem step_idle {s s' : AuthSys} {a : AuthAct} (hs : s.step a = some s') {i : Nat}
    (hi : s.procs i = .idle) (ha : ∀ c, a ≠ .start i c) : s'.procs i = .idle := by
  have hother : ∀ {j : Nat} {p : AuthProc}, j ≠ i → (s.goto j p).procs i = .idle :=
    fun hne => by rw [goto_ne (Ne.symm hne), hi]
  cases a with
  | start j c =>
    simp only [step] at hs
    split at hs
    · cases hs
      apply hother
      rintro rfl
      exact ha c rfl
    · cases hs
  | run j now fault =>
    simp only [step] at hs
    split at hs
    · rename_i c pc hp
      have hne : j ≠ i := by
        rintro rfl
        rw [hi] at hp
        cases hp
      unfold runStep at hs
      split at hs
      · split at hs <;> cases hs <;> exact hother hne
      · obtain ⟨r, -, rfl⟩ := Option.map_eq_some_iff.mp hs
        exact hother hne
      · split at hs <;> cases hs <;> exact hother hne
      · cases hs
        exact hother hne
      · cases hs
    · cases hs

theorem Within.step {n : Nat} {s s' : AuthSys} {a : AuthAct} (h : s.Within n)
    (hc : s.isAlone n a = true) (hs : s.step a = some s') : s'.Within n := by
  intro i hi
  refine step_idle hs (h i hi) ?_
  rintro c rfl
  simp only [isAlone, decide_eq_true_eq] at hc
  omega

theorem alone_of_isAlone {n : Nat} {s : AuthSys} {a : AuthAct} (h : s.Within n)
    (hc : s.isAlone n a = true) : s.Alone a := by
  cases a with
  | start i c => trivial
  | run i now fault =>
    intro username password role hp
    cases fault with
    | none =>
      refine ⟨fun j hj => ?_, fun _ => by simp⟩
      simp only [isAlone, hp, List.all_eq_true, List.mem_range, bne_iff_ne] at hc
      obtain ⟨password', role', hpj⟩ := hj
      have hlt : j < n := by
        by_contra hge
        rw [h j (Nat.le_of_not_lt hge)] at hpj
        cases hpj
      exact hc j hlt (by simp only [inserting?, hpj])
    | error rc applied => simp [isAlone] at hc
    | unread skipped => simp [isAlone] at hc

/-- A registration of `bob` as a customer. -/
def registerBob : AuthCall := .register (text "bob") (text "secret") .customer

/-- A step of call `i` in which storage does not fail. -/
def move (i : Nat) : AuthAct := .run i 0 .none

end AuthSys

open AuthSys in
/-- Two registrations of one name, one after the other: the second is turned away. -/
theorem usernames_unique_sequential : ∃ s,
    Reachable AuthSys.step AuthSys.Alone (AuthSys.init (OTable.empty 1)) s ∧
      s.procs 0 = .done registerBob .ok (some 1) ∧ s.procs 1 = .done registerBob .errDuplicate none ∧
      AuthSys.Unique s.users := by
  have hrun : (runSteps step (isAlone 2) (init (OTable.empty 1))
      [.start 0 registerBob, move 0, move 0, .start 1 registerBob, move 1]).any (fun s =>
        decide (s.procs 0 = .done registerBob .ok (some 1)) &&
          decide (s.procs 1 = .done registerBob .errDuplicate none)) = true := by
    decide +kernel
  obtain ⟨s, hs, hcheck⟩ := (Option.any_eq_true _ _).mp hrun
  simp only [Bool.and_eq_true, decide_eq_true_eq] at hcheck
  have hinit : (init (OTable.empty 1)).Within 2 := fun _ _ => rfl
  have hreach := (Reachable.of_runSteps_inv (Within 2) (fun _ _ _ hw hc hs => hw.step hc hs)
    (fun _ _ hw hc => alone_of_isAlone hw hc) hinit hs).1
  have hempty : Unique (OTable.empty 1) := fun id id' u u' hu => by simp at hu
  exact ⟨s, hreach, hcheck.1, hcheck.2, (usernames_unique hempty hreach).1⟩

open AuthSys in
/-- Two registrations of one name scan before either inserts: both succeed, and the name is stored
twice. -/
theorem usernames_collide : ∃ s,
    Reachable AuthSys.step (fun _ _ => True) (AuthSys.init (OTable.empty 1)) s ∧
      s.procs 0 = .done registerBob .ok (some 1) ∧ s.procs 1 = .done registerBob .ok (some 2) ∧
      ¬ AuthSys.Unique s.users := by
  have hrun : (runSteps step (fun _ _ => true) (init (OTable.empty 1))
      [.start 0 registerBob, .start 1 registerBob, move 0, move 1, move 0, move 1]).any (fun s =>
        (decide (s.procs 0 = .done registerBob .ok (some 1)) &&
          decide (s.procs 1 = .done registerBob .ok (some 2))) &&
        (s.users.get? 1).map UserRecord.username == some (text "bob") &&
          (s.users.get? 2).map UserRecord.username == some (text "bob")) = true := by
    decide +kernel
  obtain ⟨s, hs, hcheck⟩ := (Option.any_eq_true _ _).mp hrun
  simp only [Bool.and_eq_true, decide_eq_true_eq, beq_iff_eq, Option.map_eq_some_iff] at hcheck
  obtain ⟨⟨⟨h0, h1⟩, u, hu, hun⟩, u', hu', hun'⟩ := hcheck
  refine ⟨s, Reachable.of_runSteps (fun _ _ _ => trivial) hs, h0, h1, fun hunique => ?_⟩
  exact absurd (hunique 1 2 u u' hu hu' (hun.trans hun'.symm)) (by decide)

end Ticketing
