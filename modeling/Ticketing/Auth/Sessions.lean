import Ticketing.Auth.Auth
import Ticketing.Lib.ThreadLists
import Ticketing.Lib.Runs
import Mathlib.Algebra.BigOperators.Fin
import Mathlib.Data.Fintype.Card

/-!
# Sessions of connections (`server/auth/auth.c`)

Connections come and go, and their handlers use the session array between the moment the descriptor
is opened and the moment it is closed.  The steps of different connections come in any order, cut at
`auth->mutex`; a descriptor that is closed may be given to a later connection.

* `Conn` — how far a connection is; its handler keeps the slot that `auth_create_session` returned.
* `SessionSys.step` — one step of one connection.
* `SessionInv` — every slot in use belongs to one connection, and an unauthenticated session is
  as fresh as on the first day.
* `sessions_isolated` — what follows for the array, for new sessions, and for logins and logouts.
-/

set_option autoImplicit false

namespace Ticketing

open CText

/-- A connection, from `accept` to `close`. -/
inductive Conn where
  /-- The descriptor is open, and there is no session yet. -/
  | opened (fd : Int)
  /-- The handler works with the session in `slot`. -/
  | serving (fd : Int) (slot : Fin MAX_CONNECTIONS)
  /-- Inside `auth_login(clientFd)`: the password is verified, the mutex is not yet taken. -/
  | verified (fd : Int) (slot : Fin MAX_CONNECTIONS) (clientFd : Int) (userId : Nat)
      (user : UserRecord)
  /-- The session is removed, or there never was one. -/
  | done (fd : Int)
  | closed

/-- The open descriptor. -/
def Conn.fd : Conn → Option Int
  | .opened fd => some fd
  | .serving fd _ => some fd
  | .verified fd _ _ _ _ => some fd
  | .done fd => some fd
  | .closed => none

/-- The slot the handler works with. -/
def Conn.slot : Conn → Option (Fin MAX_CONNECTIONS)
  | .serving _ slot => some slot
  | .verified _ slot _ _ _ => some slot
  | _ => none

/-- The session array and all connections so far, numbered in the order they were accepted. -/
structure SessionSys where
  auth : AuthManager
  conns : List Conn

/-- A step of the `c`-th connection. -/
inductive SessionAct where
  /-- `accept` returns a descriptor that is not open. -/
  | accept (fd : Int)
  /-- `auth_create_session`. -/
  | create (c : Nat)
  /-- The connection ends before it has a session. -/
  | abandon (c : Nat)
  /-- `auth_login` up to the mutex, with the users table as it is then. -/
  | login (c : Nat) (users : OTable UserRecord) (username password : CStr) (fault : TableFault)
  /-- The critical section of `auth_login`. -/
  | loginSection (c : Nat)
  /-- `auth_logout`. -/
  | logout (c : Nat)
  /-- `auth_remove_session`. -/
  | remove (c : Nat)
  /-- `close`. -/
  | close (c : Nat)

namespace SessionSys

/-- `auth_create`, no connections. -/
def init : SessionSys := ⟨authCreate, []⟩

/-- The `c`-th connection is now `conn`. -/
def setConn (s : SessionSys) (c : Nat) (conn : Conn) : SessionSys :=
  { s with conns := s.conns.set c conn }

/-- One step.  `LOGIN` and `LOGOUT` take the descriptor out of the session they are given. -/
def step (s : SessionSys) : SessionAct → Option SessionSys
  | .accept fd =>
    if 0 ≤ fd ∧ ∀ conn ∈ s.conns, conn.fd ≠ some fd then
      some { s with conns := s.conns ++ [.opened fd] }
    else none
  | .create c =>
    match s.conns[c]? with
    | some (.opened fd) =>
      match authCreateSession s.auth fd with
      | some (slot, auth) => some { s.setConn c (.serving fd slot) with auth := auth }
      | none => some (s.setConn c (.done fd))
    | _ => none
  | .abandon c =>
    match s.conns[c]? with
    | some (.opened fd) => some (s.setConn c (.done fd))
    | _ => none
  | .login c users username password fault =>
    match s.conns[c]? with
    | some (.serving fd slot) =>
      match authLoginScan users username password fault with
      | some (id, user) =>
        some (s.setConn c (.verified fd slot (s.auth.sessions slot).fd id user))
      | none => some s
    | _ => none
  | .loginSection c =>
    match s.conns[c]? with
    | some (.verified fd slot clientFd id user) =>
      some { s.setConn c (.serving fd slot) with
        auth := (authLoginSection s.auth clientFd id user).1 }
    | _ => none
  | .logout c =>
    match s.conns[c]? with
    | some (.serving fd slot) =>
      some { s.setConn c (.serving fd slot) with
        auth := (authLogout s.auth (s.auth.sessions slot).fd).1 }
    | _ => none
  | .remove c =>
    match s.conns[c]? with
    | some (.serving fd _) =>
      some { s.setConn c (.done fd) with auth := authRemoveSession s.auth fd }
    | _ => none
  | .close c =>
    match s.conns[c]? with
    | some (.opened _) => some (s.setConn c .closed)
    | some (.done _) => some (s.setConn c .closed)
    | _ => none

end SessionSys

/-! ## Slots in use -/

/-- 1 for a slot in use. -/
def Session.used (session : Session) : Nat := if session.fd = -1 then 0 else 1

/-- The number of slots in use. -/
def AuthManager.live (auth : AuthManager) : Nat :=
  (Finset.univ.filter fun i => (auth.sessions i).fd ≠ -1).card

theorem AuthManager.live_eq_sum (auth : AuthManager) :
    auth.live = ∑ i, (auth.sessions i).used := by
  rw [AuthManager.live, Finset.card_filter]
  refine Finset.sum_congr rfl fun i _ => ?_
  simp only [Session.used, ne_eq, ite_not]

/-- Overwriting a slot changes the number by that slot. -/
theorem AuthManager.live_update (auth : AuthManager) (i : Fin MAX_CONNECTIONS) (session : Session)
    (count : Int) :
    AuthManager.live ⟨Function.update auth.sessions i session, count⟩ + (auth.sessions i).used =
      auth.live + session.used := by
  have hrest : ∑ j ∈ Finset.univ.erase i, (Function.update auth.sessions i session j).used =
      ∑ j ∈ Finset.univ.erase i, (auth.sessions j).used := by
    refine Finset.sum_congr rfl fun j hj => ?_
    rw [Function.update_of_ne (Finset.ne_of_mem_erase hj)]
  rw [live_eq_sum, live_eq_sum, ← Finset.add_sum_erase Finset.univ _ (Finset.mem_univ i),
    ← Finset.add_sum_erase Finset.univ (fun j => (auth.sessions j).used) (Finset.mem_univ i), hrest]
  simp only [Function.update_self]
  omega

theorem AuthManager.live_setSlot (auth : AuthManager) {i : Fin MAX_CONNECTIONS} {session : Session}
    (hfd : session.fd = (auth.sessions i).fd) : (auth.setSlot i session).live = auth.live := by
  have hused : session.used = (auth.sessions i).used := by rw [Session.used, hfd, Session.used]
  have hlive := auth.live_update i session auth.sessionCount
  rw [hused] at hlive
  exact Nat.add_right_cancel hlive

/-- A session is created in a free slot. -/
theorem authCreateSession_some {auth auth' : AuthManager} {fd : Int} {slot : Fin MAX_CONNECTIONS}
    (h : authCreateSession auth fd = some (slot, auth')) :
    (auth.sessions slot).fd = -1 ∧
      auth' = ⟨Function.update auth.sessions slot (sessionInit fd), auth.sessionCount + 1⟩ := by
  obtain ⟨i, hfree, heq⟩ := Option.map_eq_some_iff.mp h
  cases heq
  exact ⟨AuthManager.findSlot_some hfree, rfl⟩

/-- While a slot is free, `auth_create_session` finds one. -/
theorem authCreateSession_isSome {auth : AuthManager} (h : auth.live < MAX_CONNECTIONS) (fd : Int) :
    (authCreateSession auth fd).isSome := by
  rw [authCreateSession, Option.isSome_map]
  by_contra hnone
  rw [Option.not_isSome_iff_eq_none] at hnone
  have hall : (Finset.univ.filter fun i => (auth.sessions i).fd ≠ -1) = Finset.univ :=
    Finset.filter_true_of_mem fun i _ => AuthManager.findSlot_none hnone i
  rw [AuthManager.live, hall, Finset.card_univ, Fintype.card_fin] at h
  exact Nat.lt_irrefl _ h

/-! ## The invariant -/

/-- Every slot in use belongs to one connection, which has its descriptor, and an unauthenticated
session holds nothing but its descriptor. -/
structure SessionInv (s : SessionSys) : Prop where
  nonneg : ∀ conn ∈ s.conns, ∀ fd, conn.fd = some fd → 0 ≤ fd
  distinct : ∀ {c d : Nat} {conn conn' : Conn} {fd : Int}, s.conns[c]? = some conn →
    s.conns[d]? = some conn' → conn.fd = some fd → conn'.fd = some fd → c = d
  owner : ∀ {c : Nat} {conn : Conn} {slot : Fin MAX_CONNECTIONS}, s.conns[c]? = some conn →
    conn.slot = some slot → conn.fd = some (s.auth.sessions slot).fd
  used : ∀ slot, (s.auth.sessions slot).fd ≠ -1 →
    ∃ (c : Nat) (conn : Conn), s.conns[c]? = some conn ∧ conn.slot = some slot
  pending : ∀ {c : Nat} {fd clientFd : Int} {slot : Fin MAX_CONNECTIONS} {id : Nat}
    {user : UserRecord}, s.conns[c]? = some (.verified fd slot clientFd id user) → clientFd = fd
  count : s.auth.sessionCount = s.auth.live
  guest : ∀ slot, (s.auth.sessions slot).authenticated = false →
    s.auth.sessions slot = sessionInit (s.auth.sessions slot).fd

namespace SessionInv

variable {s : SessionSys}

theorem fd_nonneg (inv : SessionInv s) {c : Nat} {conn : Conn} {fd : Int}
    (hc : s.conns[c]? = some conn) (hfd : conn.fd = some fd) : 0 ≤ fd :=
  inv.nonneg conn (List.mem_of_getElem? hc) fd hfd

/-- Two slots in use have different descriptors. -/
theorem unique (inv : SessionInv s) {i j : Fin MAX_CONNECTIONS}
    (hfd : (s.auth.sessions i).fd = (s.auth.sessions j).fd) (hused : (s.auth.sessions i).fd ≠ -1) :
    i = j := by
  obtain ⟨c, conn, hc, hi⟩ := inv.used i hused
  obtain ⟨d, conn', hd, hj⟩ := inv.used j (hfd ▸ hused)
  have hfdi := inv.owner hc hi
  have hfdj := inv.owner hd hj
  rw [← hfd] at hfdj
  obtain rfl := inv.distinct hc hd hfdi hfdj
  rw [hc] at hd
  cases hd
  exact Option.some.inj (hi.symm.trans hj)

/-- Looking a connection's descriptor up finds its own slot. -/
theorem findSlot (inv : SessionInv s) {c : Nat} {conn : Conn} {slot : Fin MAX_CONNECTIONS} {fd : Int}
    (hc : s.conns[c]? = some conn) (hslot : conn.slot = some slot) (hfd : conn.fd = some fd) :
    s.auth.findSlot fd = some slot := by
  have hown := inv.owner hc hslot
  rw [hfd, Option.some.injEq] at hown
  have hpos := inv.fd_nonneg hc hfd
  cases hf : s.auth.findSlot fd with
  | none => exact absurd hown.symm (AuthManager.findSlot_none hf slot)
  | some i =>
    have hi := AuthManager.findSlot_some hf
    exact congrArg some (inv.unique (by rw [hi, hown]) (by omega))

theorem init : SessionInv SessionSys.init := by
  refine ⟨?_, ?_, ?_, ?_, ?_, ?_, ?_⟩
  · intro conn hconn
    cases hconn
  · intro c d conn conn' fd hc
    simp [SessionSys.init] at hc
  · intro c conn slot hc
    simp [SessionSys.init] at hc
  · intro slot hused
    exact absurd rfl hused
  · intro c fd clientFd slot id user hc
    simp [SessionSys.init] at hc
  · simp [SessionSys.init, authCreate, AuthManager.live, sessionInit]
  · intro slot _
    rfl

/-- A new connection with a descriptor of its own. -/
theorem accept (inv : SessionInv s) {fd : Int} (hpos : 0 ≤ fd)
    (hfresh : ∀ conn ∈ s.conns, conn.fd ≠ some fd) :
    SessionInv { s with conns := s.conns ++ [.opened fd] } where
  nonneg := by
    intro conn hconn f hf
    rcases List.mem_append.mp hconn with hconn | hconn
    · exact inv.nonneg conn hconn f hf
    · rw [List.mem_singleton.mp hconn] at hf
      exact Option.some.inj hf ▸ hpos
  distinct := by
    intro c d conn conn' f hc hd hf hf'
    rcases getElem?_concat_cases hc with hc | ⟨rfl, rfl⟩ <;>
      rcases getElem?_concat_cases hd with hd | ⟨rfl, rfl⟩
    · exact inv.distinct hc hd hf hf'
    · cases hf'
      exact absurd hf (hfresh conn (List.mem_of_getElem? hc))
    · cases hf
      exact absurd hf' (hfresh conn' (List.mem_of_getElem? hd))
    · rfl
  owner := by
    intro c conn slot hc hslot
    rcases getElem?_concat_cases hc with hc | ⟨rfl, rfl⟩
    · exact inv.owner hc hslot
    · cases hslot
  used := by
    intro slot hused
    obtain ⟨c, conn, hc, hslot⟩ := inv.used slot hused
    exact ⟨c, conn, (List.getElem?_append_left (List.getElem?_eq_some_iff.mp hc).1).trans hc, hslot⟩
  pending := by
    intro c f clientFd slot id user hc
    rcases getElem?_concat_cases hc with hc | ⟨-, hconn⟩
    · exact inv.pending hc
    · cases hconn
  count := inv.count
  guest := inv.guest

/-- One connection moves on, and the array changes only where it or no one is at home. -/
theorem move (inv : SessionInv s) {c : Nat} {old new : Conn} {auth : AuthManager}
    (hc : s.conns[c]? = some old) (hfd : new.fd = old.fd ∨ new.fd = none)
    (hother : ∀ slot, old.slot ≠ some slot → (s.auth.sessions slot).fd ≠ -1 →
      (auth.sessions slot).fd = (s.auth.sessions slot).fd)
    (hnew : ∀ slot, new.slot = some slot → new.fd = some (auth.sessions slot).fd)
    (hused : ∀ slot, (auth.sessions slot).fd ≠ -1 → new.slot = some slot ∨
      old.slot ≠ some slot ∧ (s.auth.sessions slot).fd ≠ -1)
    (hpending : ∀ fd slot clientFd id user, new = .verified fd slot clientFd id user → clientFd = fd)
    (hcount : auth.sessionCount = auth.live)
    (hguest : ∀ slot, (auth.sessions slot).authenticated = false →
      auth.sessions slot = sessionInit (auth.sessions slot).fd) :
    SessionInv { s.setConn c new with auth := auth } where
  nonneg := by
    intro conn hconn fd hf
    rcases List.mem_or_eq_of_mem_set hconn with hconn | rfl
    · exact inv.nonneg conn hconn fd hf
    · rcases hfd with hfd | hfd
      · exact inv.fd_nonneg hc (hfd ▸ hf)
      · rw [hfd] at hf
        cases hf
  distinct := by
    have hold : ∀ {fd : Int}, new.fd = some fd → old.fd = some fd := by
      intro fd hf
      rcases hfd with hfd | hfd
      · exact hfd ▸ hf
      · rw [hfd] at hf
        cases hf
    intro d e conn conn' fd hd he hf hf'
    rcases getElem?_set_cases hd with ⟨hdc, hconn⟩ | ⟨-, hd'⟩ <;>
      rcases getElem?_set_cases he with ⟨hec, hconn'⟩ | ⟨-, he'⟩
    · exact hdc.trans hec.symm
    · exact hdc.trans (inv.distinct hc he' (hold (hconn ▸ hf)) hf')
    · exact (inv.distinct hd' hc hf (hold (hconn' ▸ hf'))).trans hec.symm
    · exact inv.distinct hd' he' hf hf'
  owner := by
    intro d conn slot hd hslot
    rcases getElem?_set_cases hd with ⟨rfl, rfl⟩ | ⟨hne, hd⟩
    · exact hnew slot hslot
    · have hown := inv.owner hd hslot
      have hpos := inv.fd_nonneg hd hown
      have hnot : old.slot ≠ some slot := by
        intro hold
        exact hne (inv.distinct hd hc hown (inv.owner hc hold))
      rw [hother slot hnot (by omega)]
      exact hown
  used := by
    intro slot hs
    rcases hused slot hs with hslot | ⟨hnot, hs⟩
    · exact ⟨c, new, List.getElem?_set_self (List.getElem?_eq_some_iff.mp hc).1, hslot⟩
    · obtain ⟨d, conn, hd, hslot⟩ := inv.used slot hs
      have hne : c ≠ d := by
        rintro rfl
        rw [hc] at hd
        cases hd
        exact hnot hslot
      exact ⟨d, conn, (List.getElem?_set_ne hne).trans hd, hslot⟩
  pending := by
    intro d fd clientFd slot id user hd
    rcases getElem?_set_cases hd with ⟨rfl, hconn⟩ | ⟨hne, hd⟩
    · exact hpending _ _ _ _ _ hconn.symm
    · exact inv.pending hd
  count := hcount
  guest := hguest

/-- Steps that leave the array alone. -/
theorem moveConn (inv : SessionInv s) {c : Nat} {old new : Conn} (hc : s.conns[c]? = some old)
    (hfd : new.fd = old.fd ∨ new.fd = none) (hslot : new.slot = old.slot)
    (hnone : new.fd = none → new.slot = none)
    (hpending : ∀ fd slot clientFd id user, new = .verified fd slot clientFd id user →
      clientFd = fd) : SessionInv (s.setConn c new) := by
  refine inv.move hc hfd (fun _ _ _ => rfl) ?_ ?_ hpending inv.count inv.guest
  · intro slot h
    rcases hfd with hfd | hfd
    · rw [hfd]
      exact inv.owner hc (hslot ▸ h)
    · rw [hnone hfd] at h
      cases h
  · intro slot hs
    by_cases h : old.slot = some slot
    · exact Or.inl (hslot.trans h)
    · exact Or.inr ⟨h, hs⟩

/-- Steps that rewrite the own session, but not its descriptor. -/
theorem rewriteOwn (inv : SessionInv s) {c : Nat} {old new : Conn} {slot : Fin MAX_CONNECTIONS}
    {session : Session} (hc : s.conns[c]? = some old) (hold : old.slot = some slot)
    (hfd : new.fd = old.fd) (hslot : new.slot = some slot)
    (hpending : ∀ fd slot clientFd id user, new = .verified fd slot clientFd id user →
      clientFd = fd)
    (hsession : session.fd = (s.auth.sessions slot).fd)
    (hguest : session.authenticated = false → session = sessionInit session.fd) :
    SessionInv { s.setConn c new with auth := s.auth.setSlot slot session } := by
  have hkeep : ∀ i, ((s.auth.setSlot slot session).sessions i).fd = (s.auth.sessions i).fd := by
    intro i
    rcases eq_or_ne i slot with rfl | hi
    · exact (congrArg Session.fd (Function.update_self ..)).trans hsession
    · exact congrArg Session.fd (Function.update_of_ne hi ..)
  refine inv.move hc (Or.inl hfd) (fun i _ _ => hkeep i) ?_ ?_ hpending ?_ ?_
  · intro i hi
    rw [hfd, hkeep]
    rw [hslot, Option.some.injEq] at hi
    exact inv.owner hc (hold.trans (congrArg some hi))
  · intro i hi
    rw [hkeep] at hi
    by_cases h : i = slot
    · exact Or.inl (hslot.trans (congrArg some h.symm))
    · refine Or.inr ⟨fun h' => h ?_, hi⟩
      exact Option.some.inj (h'.symm.trans hold)
  · rw [s.auth.live_setSlot hsession]
    exact inv.count
  · intro i hi
    rcases eq_or_ne i slot with rfl | hne
    · rw [show (s.auth.setSlot i session).sessions i = session from Function.update_self ..] at hi ⊢
      exact hguest hi
    · rw [show (s.auth.setSlot slot session).sessions i = s.auth.sessions i from
        Function.update_of_ne hne ..] at hi ⊢
      exact inv.guest i hi

/-- A free slot is taken. -/
theorem create (inv : SessionInv s) {c : Nat} {fd : Int} {slot : Fin MAX_CONNECTIONS}
    {auth : AuthManager} (hc : s.conns[c]? = some (.opened fd))
    (hcreate : authCreateSession s.auth fd = some (slot, auth)) :
    SessionInv { s.setConn c (.serving fd slot) with auth := auth } ∧ auth.live = s.auth.live + 1 := by
  obtain ⟨hfree, rfl⟩ := authCreateSession_some hcreate
  have hpos := inv.fd_nonneg hc rfl
  have hlive : AuthManager.live ⟨Function.update s.auth.sessions slot (sessionInit fd),
      s.auth.sessionCount + 1⟩ = s.auth.live + 1 := by
    have h := s.auth.live_update slot (sessionInit fd) (s.auth.sessionCount + 1)
    have hold : (s.auth.sessions slot).used = 0 := if_pos hfree
    have hnew : (sessionInit fd).used = 1 := if_neg (by simp only [sessionInit]; omega)
    omega
  refine ⟨inv.move hc (Or.inl rfl) ?_ ?_ ?_ (by simp) ?_ ?_, hlive⟩
  · intro i _ hi
    have hne : i ≠ slot := by
      rintro rfl
      exact hi hfree
    simp only [Function.update_of_ne hne]
  · intro i hi
    cases hi
    simp only [Function.update_self]
    rfl
  · intro i hi
    rcases eq_or_ne i slot with rfl | hne
    · exact Or.inl rfl
    · simp only [Function.update_of_ne hne] at hi
      exact Or.inr ⟨by simp [Conn.slot], hi⟩
  · rw [hlive]
    simp only [inv.count]
    push_cast
    rfl
  · intro i hi
    rcases eq_or_ne i slot with rfl | hne
    · simp only [Function.update_self]
      rfl
    · simp only [Function.update_of_ne hne] at hi ⊢
      exact inv.guest i hi

/-- The own slot is given back. -/
theorem remove (inv : SessionInv s) {c : Nat} {fd : Int} {slot : Fin MAX_CONNECTIONS}
    (hc : s.conns[c]? = some (.serving fd slot)) :
    SessionInv { s.setConn c (.done fd) with auth := authRemoveSession s.auth fd } ∧
      (authRemoveSession s.auth fd).live + 1 = s.auth.live := by
  have hfd : (s.auth.sessions slot).fd = fd := Option.some.inj (inv.owner hc rfl).symm
  have hpos := inv.fd_nonneg hc rfl
  rw [authRemoveSession, inv.findSlot hc rfl rfl]
  dsimp only
  have hlive : AuthManager.live ⟨Function.update s.auth.sessions slot (sessionInit (-1)),
      s.auth.sessionCount - 1⟩ + 1 = s.auth.live := by
    have h := s.auth.live_update slot (sessionInit (-1)) (s.auth.sessionCount - 1)
    have hold : (s.auth.sessions slot).used = 1 := if_neg (by omega)
    have hnew : (sessionInit (-1)).used = 0 := if_pos rfl
    omega
  refine ⟨inv.move hc (Or.inl rfl) ?_ (by simp [Conn.slot]) ?_ (by simp) ?_ ?_, hlive⟩
  · intro i hi _
    refine congrArg Session.fd (Function.update_of_ne ?_ ..)
    rintro rfl
    exact hi rfl
  · intro i hi
    rcases eq_or_ne i slot with rfl | hne
    · simp [AuthManager.setSlot, sessionInit] at hi
    · simp only [AuthManager.setSlot, Function.update_of_ne hne] at hi
      refine Or.inr ⟨fun h => hne (Option.some.inj h).symm, hi⟩
  · have hcount := inv.count
    simp only [AuthManager.setSlot]
    omega
  · intro i hi
    rcases eq_or_ne i slot with rfl | hne
    · simp only [AuthManager.setSlot, Function.update_self]
      rfl
    · simp only [AuthManager.setSlot, Function.update_of_ne hne] at hi ⊢
      exact inv.guest i hi

/-- A login rewrites the session of its connection. -/
theorem authLoginSection_eq (inv : SessionInv s) {c : Nat} {fd clientFd : Int}
    {slot : Fin MAX_CONNECTIONS} {id : Nat} {user : UserRecord}
    (hc : s.conns[c]? = some (.verified fd slot clientFd id user)) :
    authLoginSection s.auth clientFd id user =
      (s.auth.setSlot slot ((s.auth.sessions slot).login id user), .ok) := by
  obtain rfl := inv.pending hc
  rw [authLoginSection, inv.findSlot hc rfl rfl]

/-- So does a logout, if there is somebody logged in. -/
theorem authLogout_eq (inv : SessionInv s) {c : Nat} {fd : Int} {slot : Fin MAX_CONNECTIONS}
    (hc : s.conns[c]? = some (.serving fd slot)) :
    authLogout s.auth (s.auth.sessions slot).fd =
      if (s.auth.sessions slot).authenticated then
        (s.auth.setSlot slot (s.auth.sessions slot).logout, .ok)
      else (s.auth, .errAuth) := by
  rw [authLogout, inv.findSlot hc rfl (inv.owner hc rfl)]

theorem step (inv : SessionInv s) {a : SessionAct} {s' : SessionSys} (h : s.step a = some s') :
    SessionInv s' := by
  cases a with
  | accept fd =>
    simp only [SessionSys.step] at h
    split at h
    · rename_i hfd
      cases h
      exact inv.accept hfd.1 hfd.2
    · cases h
  | create c =>
    simp only [SessionSys.step] at h
    split at h
    · rename_i fd hc
      split at h
      · rename_i slot auth hcreate
        cases h
        exact (inv.create hc hcreate).1
      · cases h
        exact inv.moveConn hc (Or.inl rfl) rfl (by simp [Conn.fd]) (by simp)
    · cases h
  | abandon c =>
    simp only [SessionSys.step] at h
    split at h
    · rename_i fd hc
      cases h
      exact inv.moveConn hc (Or.inl rfl) rfl (by simp [Conn.fd]) (by simp)
    · cases h
  | login c users username password fault =>
    simp only [SessionSys.step] at h
    split at h
    · rename_i fd slot hc
      split at h
      · cases h
        refine inv.moveConn hc (Or.inl rfl) rfl (by simp [Conn.fd]) ?_
        intro f i clientFd id user heq
        cases heq
        exact Option.some.inj (inv.owner hc rfl).symm
      · cases h
        exact inv
    · cases h
  | loginSection c =>
    simp only [SessionSys.step] at h
    split at h
    · rename_i fd slot clientFd id user hc
      cases h
      rw [inv.authLoginSection_eq hc]
      exact inv.rewriteOwn hc rfl rfl rfl (by simp) rfl (by simp [Session.login])
    · cases h
  | logout c =>
    simp only [SessionSys.step] at h
    split at h
    · rename_i fd slot hc
      cases h
      rw [inv.authLogout_eq hc]
      split
      · exact inv.rewriteOwn hc rfl rfl rfl (by simp) rfl (fun _ => rfl)
      · exact inv.moveConn hc (Or.inl rfl) rfl (by simp [Conn.fd]) (by simp)
    · cases h
  | remove c =>
    simp only [SessionSys.step] at h
    split at h
    · rename_i fd slot hc
      cases h
      exact (inv.remove hc).1
    · cases h
  | close c =>
    simp only [SessionSys.step] at h
    split at h
    · rename_i fd hc
      cases h
      exact inv.moveConn hc (Or.inr rfl) rfl (by simp [Conn.slot]) (by simp)
    · rename_i fd hc
      cases h
      exact inv.moveConn hc (Or.inr rfl) rfl (by simp [Conn.slot]) (by simp)
    · cases h

/-- Logging in and out touches no session but the connection's own. -/
theorem frame (inv : SessionInv s) {c : Nat} {conn : Conn} {s' : SessionSys}
    (hc : s.conns[c]? = some conn)
    (h : (∃ users username password fault,
        s.step (.login c users username password fault) = some s') ∨
      s.step (.loginSection c) = some s' ∨ s.step (.logout c) = some s')
    {i : Fin MAX_CONNECTIONS} (hi : conn.fd ≠ some (s.auth.sessions i).fd) :
    s'.auth.sessions i = s.auth.sessions i := by
  have hother : ∀ slot session, conn.slot = some slot →
      (s.auth.setSlot slot session).sessions i = s.auth.sessions i := by
    intro slot session hslot
    refine Function.update_of_ne ?_ ..
    rintro rfl
    exact hi (inv.owner hc hslot)
  rcases h with ⟨users, username, password, fault, h⟩ | h | h
  · simp only [SessionSys.step] at h
    split at h
    · split at h <;> cases h <;> rfl
    · cases h
  · simp only [SessionSys.step] at h
    split at h
    · rename_i hc'
      cases h
      cases hc.symm.trans hc'
      rw [inv.authLoginSection_eq hc]
      exact hother _ _ rfl
    · cases h
  · simp only [SessionSys.step] at h
    split at h
    · rename_i hc'
      cases h
      cases hc.symm.trans hc'
      rw [inv.authLogout_eq hc]
      split
      · exact hother _ _ rfl
      · rfl
    · cases h

end SessionInv

/-! ## What a step leaves alone -/

/-- The connection of a step; `accept` makes a new one. -/
def SessionAct.conn : SessionAct → Option Nat
  | .accept _ => none
  | .create c | .abandon c | .login c _ _ _ _ | .loginSection c | .logout c | .remove c | .close c =>
    some c

/-- A step of one connection is no step of the others. -/
theorem SessionSys.step_others {s s' : SessionSys} {a : SessionAct} {c : Nat}
    (h : s.step a = some s') (ha : a.conn = some c) :
    s'.conns.length = s.conns.length ∧ ∀ d, d ≠ c → s'.conns[d]? = s.conns[d]? := by
  have hset : ∀ {t : SessionSys} (conn : Conn), t.conns = s.conns.set c conn →
      t.conns.length = s.conns.length ∧ ∀ d, d ≠ c → t.conns[d]? = s.conns[d]? := by
    intro t conn ht
    rw [ht]
    exact ⟨List.length_set, fun d hd => List.getElem?_set_ne (Ne.symm hd)⟩
  cases a <;> simp only [SessionAct.conn, Option.some.injEq, reduceCtorEq] at ha <;> subst ha <;>
    simp only [SessionSys.step] at h <;> (repeat' split at h) <;> cases h <;>
    first
    | exact hset _ rfl
    | exact ⟨rfl, fun _ _ => rfl⟩

/-- `auth_create_session` takes a slot, if there is one. -/
theorem SessionInv.step_create {s s' : SessionSys} (inv : SessionInv s) {c : Nat}
    (h : s.step (.create c) = some s') :
    (∃ fd slot, s'.conns[c]? = some (.serving fd slot) ∧ s'.auth.live = s.auth.live + 1) ∨
      ∃ fd, s'.conns[c]? = some (.done fd) ∧ s'.auth.live = s.auth.live := by
  simp only [SessionSys.step] at h
  split at h
  · rename_i fd hc
    have hlt := (List.getElem?_eq_some_iff.mp hc).1
    split at h
    · rename_i slot auth hcreate
      cases h
      exact Or.inl ⟨fd, slot, List.getElem?_set_self hlt, (inv.create hc hcreate).2⟩
    · cases h
      exact Or.inr ⟨fd, List.getElem?_set_self hlt, rfl⟩
  · cases h

/-- `auth_remove_session` gives the slot back. -/
theorem SessionInv.step_remove {s s' : SessionSys} (inv : SessionInv s) {c : Nat}
    (h : s.step (.remove c) = some s') : s'.auth.live + 1 = s.auth.live := by
  simp only [SessionSys.step] at h
  split at h
  · rename_i hc
    cases h
    exact (inv.remove hc).2
  · cases h

/-- The other steps neither take nor give back a slot. -/
theorem SessionInv.step_live {s s' : SessionSys} (inv : SessionInv s) {a : SessionAct}
    (h : s.step a = some s') (hcreate : ∀ c, a ≠ .create c) (hremove : ∀ c, a ≠ .remove c) :
    s'.auth.live = s.auth.live := by
  cases a with
  | create c => exact absurd rfl (hcreate c)
  | remove c => exact absurd rfl (hremove c)
  | loginSection c =>
    simp only [SessionSys.step] at h
    split at h
    · rename_i hc
      cases h
      rw [inv.authLoginSection_eq hc]
      exact s.auth.live_setSlot rfl
    · cases h
  | logout c =>
    simp only [SessionSys.step] at h
    split at h
    · rename_i hc
      cases h
      rw [inv.authLogout_eq hc]
      split
      · exact s.auth.live_setSlot rfl
      · rfl
    · cases h
  | _ => simp only [SessionSys.step] at h; (repeat' split at h) <;> cases h <;> rfl

/-! ## Isolation -/

/-- **Sessions are isolated.**  Whatever connections came and went, and however their steps were
interleaved: a descriptor has at most one slot, the count is the number of slots in use, a new
session is that of an unauthenticated guest, only authenticated sessions carry a user, every handler
works with the session of its own descriptor, and logins and logouts leave all other sessions
alone. -/
theorem sessions_isolated {s : SessionSys}
    (h : Reachable SessionSys.step (fun _ _ => True) SessionSys.init s) :
    (∀ i j, (s.auth.sessions i).fd ≠ -1 → (s.auth.sessions i).fd = (s.auth.sessions j).fd → i = j) ∧
    s.auth.sessionCount = s.auth.live ∧
    (∀ (c : Nat) fd slot auth, s.conns[c]? = some (.opened fd) →
      authCreateSession s.auth fd = some (slot, auth) →
        auth.sessions slot = ⟨fd, 0, .guest, [], false⟩) ∧
    (∀ i, (s.auth.sessions i).authenticated = false →
      (s.auth.sessions i).role = .guest ∧ (s.auth.sessions i).userId = 0) ∧
    (∀ (c : Nat) (conn : Conn) slot, s.conns[c]? = some conn → conn.slot = some slot →
      conn.fd = some (s.auth.sessions slot).fd) ∧
    ∀ (c : Nat) (conn : Conn) s', s.conns[c]? = some conn →
      ((∃ users username password fault,
          s.step (.login c users username password fault) = some s') ∨
        s.step (.loginSection c) = some s' ∨ s.step (.logout c) = some s') →
      ∀ i, conn.fd ≠ some (s.auth.sessions i).fd → s'.auth.sessions i = s.auth.sessions i := by
  have inv : SessionInv s :=
    h.invariant SessionInv.init fun _ _ _ inv _ hstep => inv.step hstep
  refine ⟨fun i j hused hfd => inv.unique hfd hused, inv.count, ?_, ?_,
    fun c conn slot => inv.owner, fun c conn s' hc hstep i => inv.frame hc hstep⟩
  · intro c fd slot auth hc hcreate
    obtain ⟨-, rfl⟩ := authCreateSession_some hcreate
    exact Function.update_self ..
  · intro i hi
    rw [inv.guest i hi]
    exact ⟨rfl, rfl⟩

/-- The admin logs in on descriptor 5 and leaves; the next client on descriptor 5 is a guest. -/
theorem sessions_isolated_reused : ∃ s slot,
    Reachable SessionSys.step (fun _ _ => True) SessionSys.init s ∧
      s.auth.findSlot 5 = some slot ∧ (s.auth.sessions slot).role = .guest ∧
      (s.auth.sessions slot).userId = 0 ∧ s.auth.sessionCount = s.auth.live := by
  have hrun : (runSteps SessionSys.step (fun _ _ => true) SessionSys.init
      [.accept 5, .create 0,
        .login 0 (authBootstrapAdmin (OTable.empty 1) 0) (text "admin") (text "admin123") .none,
        .loginSection 0, .remove 0, .close 0, .accept 5, .create 1]).any
      (fun s => (s.auth.findSlot 5).any fun slot => !(s.auth.sessions slot).authenticated) =
        true := by
    decide +kernel
  obtain ⟨s, hs, hcheck⟩ := (Option.any_eq_true _ _).mp hrun
  obtain ⟨slot, hslot, hauth⟩ := (Option.any_eq_true _ _).mp hcheck
  have hreach := Reachable.of_runSteps (fun _ _ _ => trivial) hs
  obtain ⟨-, hcount, -, hguest, -⟩ := sessions_isolated hreach
  have hslotGuest := hguest slot (by simpa using hauth)
  exact ⟨s, slot, hreach, hslot, hslotGuest.1, hslotGuest.2, hcount⟩

end Ticketing
