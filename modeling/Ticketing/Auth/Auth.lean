import Ticketing.Lib.CText
import Ticketing.Storage.TableCalls
import Mathlib.Data.List.FinRange
import Mathlib.Logic.Function.Basic

/-!
# Authentication (`server/auth/auth.c`)

Sessions live in an array of `MAX_CONNECTIONS` slots under `auth->mutex`; users live in the users
table, whose calls are serialised by the storage mutex.  `auth_register` and `auth_login` make
their table calls outside `auth->mutex`, so each is cut into one definition for each section:

* `authRegisterScan`, `authRegisterInsert` — the two table calls of `auth_register`.
* `authLoginScan`, `authLoginSection` — the table call of `auth_login` and its critical section.
* `authRegister`, `authLogin` — the functions as they run without interruption.
-/

set_option autoImplicit false

namespace Ticketing

open CText

/-! ## Passwords (`common/utils.c`) -/

/-- `djb2_hash`. -/
def djb2Hash (str : CStr) (seed : UInt64) : UInt64 :=
  str.foldl (fun hash c => ((hash <<< 5) + hash) ^^^ c.toUInt64) seed

/-- One digit of `%x`. -/
def hexDigit (n : UInt64) : UInt8 := if n < 10 then 48 + n.toUInt8 else 87 + n.toUInt8

/-- `%016lx`. -/
def hex16 (n : UInt64) : CStr :=
  (List.range 16).map (fun i => hexDigit ((n >>> UInt64.ofNat (4 * (15 - i))) &&& 15))

/-- `etp_hash_password`: two passes with different seeds. -/
def etpHashPassword (password : CStr) : CStr :=
  hex16 (djb2Hash password 5381) ++ hex16 (djb2Hash password 7919)

/-- `etp_verify_password`. -/
def etpVerifyPassword (password storedHash : CStr) : Bool := etpHashPassword password == storedHash

/-! ## Users and sessions -/

/-- `user_record_t`; its key and deletion flag belong to the table. -/
structure UserRecord where
  username : CStr
  passwordHash : CStr
  role : UserRole
  createdAt : Int
  deriving DecidableEq, Repr

/-- `session_t`; a slot that is not in use has `fd = -1`. -/
structure Session where
  fd : Int
  userId : Nat
  role : UserRole
  username : CStr
  authenticated : Bool
  deriving DecidableEq, Repr

/-- `session_init`. -/
def sessionInit (fd : Int) : Session := ⟨fd, 0, .guest, [], false⟩

/-- `auth_manager_t`, without the users table it points to. -/
structure AuthManager where
  sessions : Fin MAX_CONNECTIONS → Session
  sessionCount : Int

/-- `auth_create`. -/
def authCreate : AuthManager := ⟨fun _ => sessionInit (-1), 0⟩

namespace AuthManager

/-- The first slot with this descriptor. -/
def findSlot (auth : AuthManager) (fd : Int) : Option (Fin MAX_CONNECTIONS) :=
  (List.finRange MAX_CONNECTIONS).find? (fun i => (auth.sessions i).fd == fd)

/-- Overwrite one slot. -/
def setSlot (auth : AuthManager) (i : Fin MAX_CONNECTIONS) (session : Session) : AuthManager :=
  { auth with sessions := Function.update auth.sessions i session }

theorem findSlot_some {auth : AuthManager} {fd : Int} {i : Fin MAX_CONNECTIONS}
    (h : auth.findSlot fd = some i) : (auth.sessions i).fd = fd := by
  simpa using List.find?_some h

theorem findSlot_none {auth : AuthManager} {fd : Int} (h : auth.findSlot fd = none)
    (i : Fin MAX_CONNECTIONS) : (auth.sessions i).fd ≠ fd := by
  simpa using List.find?_eq_none.mp h i (List.mem_finRange i)

end AuthManager

/-- `auth_create_session`. -/
def authCreateSession (auth : AuthManager) (clientFd : Int) :
    Option (Fin MAX_CONNECTIONS × AuthManager) :=
  (auth.findSlot (-1)).map fun i =>
    (i, { auth.setSlot i (sessionInit clientFd) with sessionCount := auth.sessionCount + 1 })

/-- `auth_remove_session`. -/
def authRemoveSession (auth : AuthManager) (clientFd : Int) : AuthManager :=
  match auth.findSlot clientFd with
  | some i => { auth.setSlot i (sessionInit (-1)) with sessionCount := auth.sessionCount - 1 }
  | none => auth

/-! ## Registration -/

/-- `filter_by_username`. -/
def filterByUsername (targetUsername : CStr) (user : UserRecord) : Bool :=
  user.username == targetUsername

/-- The argument checks of `auth_register`. -/
def registerArgsOk (username password : CStr) : Bool :=
  username.length != 0 && decide (username.length ≤ MAX_USERNAME_LEN) &&
    (password.length != 0 && decide (password.length ≤ MAX_PASSWORD_LEN))

/-- The argument checks and the scan for the username; `none` lets the registration go on. -/
def authRegisterScan (users : OTable UserRecord) (username password : CStr) (fault : TableFault) :
    Option EtpResult :=
  if registerArgsOk username password then
    if scanRecords users (filterByUsername username) 1 fault ≠ [] then some .errDuplicate else none
  else some .errInvalidArg

/-- The record `auth_register` builds. -/
def newUser (username password : CStr) (role : UserRole) (now : Int) : UserRecord :=
  ⟨strlcpy 32 username, etpHashPassword password, role, now⟩

/-- The insertion of the new user: the result and, on success, the new id. -/
def authRegisterInsert (users : OTable UserRecord) (username password : CStr) (role : UserRole)
    (now : Int) (fault : TableFault) : Option (OTable UserRecord × EtpResult × Option Nat) :=
  (insertRecord users (newUser username password role now) fault).map fun r =>
    match r.2 with
    | .ok id => (r.1, .ok, some id)
    | .error rc => (r.1, rc, none)

/-- `auth_register` without interruption. -/
def authRegister (users : OTable UserRecord) (username password : CStr) (role : UserRole)
    (now : Int) (scan insert : TableFault) :
    Option (OTable UserRecord × EtpResult × Option Nat) :=
  match authRegisterScan users username password scan with
  | some rc => some (users, rc, none)
  | none => authRegisterInsert users username password role now insert

/-! ## Login and logout -/

/-- The scan of `auth_login` and the comparison of the hashes. -/
def authLoginScan (users : OTable UserRecord) (username password : CStr) (fault : TableFault) :
    Option (Nat × UserRecord) :=
  match scanRecords users (filterByUsername username) 1 fault with
  | [] => none
  | r :: _ => if etpVerifyPassword password r.2.passwordHash then some r else none

/-- The session of a user who has logged in. -/
def Session.login (session : Session) (userId : Nat) (user : UserRecord) : Session :=
  { session with
    userId := userId, role := user.role, authenticated := true,
    username := strlcpy 32 user.username }

/-- The session after logout. -/
def Session.logout (session : Session) : Session :=
  { session with userId := 0, role := .guest, authenticated := false, username := [] }

/-- The critical section of `auth_login`. -/
def authLoginSection (auth : AuthManager) (clientFd : Int) (userId : Nat) (user : UserRecord) :
    AuthManager × EtpResult :=
  match auth.findSlot clientFd with
  | some i => (auth.setSlot i ((auth.sessions i).login userId user), .ok)
  | none => (auth, .errGeneric)

/-- `auth_login` without interruption. -/
def authLogin (auth : AuthManager) (users : OTable UserRecord) (clientFd : Int)
    (username password : CStr) (fault : TableFault) : AuthManager × EtpResult :=
  match authLoginScan users username password fault with
  | some r => authLoginSection auth clientFd r.1 r.2
  | none => (auth, .errAuth)

/-- `auth_logout`. -/
def authLogout (auth : AuthManager) (clientFd : Int) : AuthManager × EtpResult :=
  match auth.findSlot clientFd with
  | some i =>
    if (auth.sessions i).authenticated then (auth.setSlot i (auth.sessions i).logout, .ok)
    else (auth, .errAuth)
  | none => (auth, .errAuth)

/-- `auth_bootstrap_admin` over an empty users table. -/
def authBootstrapAdmin (users : OTable UserRecord) (now : Int) : OTable UserRecord :=
  if users.rows.length > 0 then users
  else
    match authRegister users (text "admin") (text "admin123") .admin now .none .none with
    | some r => r.1
    | none => users

/-! ## What the scans know -/

/-- A scan that reads every page finds the username unless nobody has it. -/
theorem authRegisterScan_none {users : OTable UserRecord} {username password : CStr}
    {fault : TableFault} (hread : ∀ skipped, fault ≠ .unread skipped)
    (h : authRegisterScan users username password fault = none) :
    registerArgsOk username password = true ∧
      ∀ id u, users.get? id = some u → u.username ≠ username := by
  unfold authRegisterScan at h
  split at h
  · rename_i hargs
    refine ⟨hargs, ?_⟩
    rintro id u hu rfl
    split at h
    · cases h
    · rename_i hscan
      rw [not_not] at hscan
      have hempty : users.rows.filter (fun r => filterByUsername u.username r.2) = [] := by
        unfold scanRecords at hscan
        split at hscan
        · rename_i skipped
          exact absurd rfl (hread skipped)
        · unfold OTable.scan at hscan
          rcases List.take_eq_nil_iff.mp hscan with h0 | h0
          · omega
          · exact h0
      have hmem : (id, u) ∈ users.rows.filter (fun r => filterByUsername u.username r.2) :=
        List.mem_filter.mpr ⟨OTable.mem_iff.mpr hu, by simp [filterByUsername]⟩
      rw [hempty] at hmem
      cases hmem
  · cases h

/-- The scan ends a registration only with an error. -/
theorem authRegisterScan_ne_ok {users : OTable UserRecord} {username password : CStr}
    {fault : TableFault} {rc : EtpResult}
    (h : authRegisterScan users username password fault = some rc) : rc ≠ .ok := by
  unfold authRegisterScan at h
  split at h
  · split at h <;> cases h
    decide
  · cases h
    decide

/-- A username that passes the argument checks is stored whole. -/
theorem newUser_username {username password : CStr} (h : registerArgsOk username password = true)
    (role : UserRole) (now : Int) : (newUser username password role now).username = username := by
  unfold registerArgsOk MAX_USERNAME_LEN at h
  simp only [Bool.and_eq_true, decide_eq_true_eq] at h
  apply List.take_of_length_le
  omega

/-- A login that goes on has found a stored user with this name and password. -/
theorem authLoginScan_some {users : OTable UserRecord} {username password : CStr}
    {fault : TableFault} {r : Nat × UserRecord}
    (h : authLoginScan users username password fault = some r) :
    users.get? r.1 = some r.2 ∧ r.2.username = username ∧
      etpVerifyPassword password r.2.passwordHash = true := by
  unfold authLoginScan at h
  split at h
  · cases h
  · rename_i r' rest hscan
    split at h
    · rename_i hpw
      cases h
      obtain ⟨hget, hname⟩ := mem_scanRecords (r := r) (by rw [hscan]; exact List.mem_cons_self)
      exact ⟨hget, by simpa [filterByUsername] using hname, hpw⟩
    · cases h

end Ticketing
