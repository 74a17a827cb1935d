import Ticketing.Auth.Sessions
import Ticketing.Ipc.Stats

/-!
# Accept loop and client handlers (`server/network/tcp_server.c`, `client_handler`)

The accept loop takes a slot of the connection semaphore, accepts a connection and hands it to the
thread pool; `client_task_wrapper` runs `client_handler`, closes the descriptor and gives the slot
back.  The loop and the handlers of all connections take their steps in any order, until
`tcp_server_stop` is called.

* `AcceptLoop`, `TaskPhase` — where the loop and each connection are.
* `NetSys.step` — one step; every call that can fail may fail.
* `NetInv`, `NetInv.step` — where the slots, the sessions and the counted connections are.
* `connection_slots_conserved` — the accounts at any moment.
-/

set_option autoImplicit false

namespace Ticketing

open CText

/-- Where `tcp_server_start` is. -/
inductive AcceptLoop where
  /-- At the head of the loop. -/
  | top
  /-- In `sem_timedwait`. -/
  | waiting
  /-- With a slot, before it looks at `running` again. -/
  | holding
  /-- In `accept`. -/
  | accepting
  /-- With the `c`-th connection, before it allocates the task. -/
  | accepted (c : Nat)
  /-- In `thread_pool_submit`. -/
  | submitting (c : Nat)
  /-- Giving the connection up, before it closes the descriptor. -/
  | dropping (c : Nat)
  /-- Before `sem_post`, and then `break` or `continue`. -/
  | posting (leave : Bool)
  | stopped
  deriving DecidableEq, Repr

/-- Where a connection is. -/
inductive TaskPhase where
  /-- With the accept loop. -/
  | held
  /-- Closed by the accept loop. -/
  | dropped
  /-- In the queue of the thread pool. -/
  | queued
  /-- In `client_handler`, before `stats_inc_connections`. -/
  | started
  /-- Before `auth_create_session`. -/
  | counted
  /-- Between `auth_create_session` and `auth_remove_session`. -/
  | serving
  /-- Before `stats_dec_connections`. -/
  | removed
  /-- The handler has returned, the descriptor is still open. -/
  | uncounted
  /-- Before `sem_post`. -/
  | closed
  | finished
  deriving DecidableEq, Repr

namespace TaskPhase

/-- The connection is accepted and not yet finished. -/
def holdsSlot : TaskPhase → Bool
  | .held | .dropped | .finished => false
  | _ => true

/-- The handler runs. -/
def inHandler : TaskPhase → Bool
  | .started | .counted | .serving | .removed => true
  | _ => false

/-- The handler has counted the connection and not yet discounted it. -/
def isCounted : TaskPhase → Bool
  | .counted | .serving | .removed => true
  | _ => false

/-- The connection has a session. -/
def hasSession : TaskPhase → Bool
  | .serving => true
  | _ => false

/-- The connection has not asked for a session yet. -/
def beforeSession : TaskPhase → Bool
  | .held | .queued | .started | .counted => true
  | _ => false

end TaskPhase

/-- The slots the accept loop holds. -/
def AcceptLoop.slots : AcceptLoop → Nat
  | .top | .waiting | .stopped => 0
  | _ => 1

/-- The server; `tasks` and the connections of `sessions` are numbered alike. -/
structure NetSys where
  running : Bool
  loop : AcceptLoop
  /-- The value of `g_conn_semaphore`. -/
  semaphore : Nat
  sessions : SessionSys
  tasks : List TaskPhase
  stats : ServerStats

/-- A step of the accept loop or of the handler of the `c`-th connection. -/
inductive NetAct where
  /-- The signal handler clears `running`. -/
  | signal
  /-- The loop condition. -/
  | enter
  /-- `sem_timedwait` fails. -/
  | timeout
  /-- `sem_timedwait` takes a slot. -/
  | wait
  /-- The second look at `running`. -/
  | check
  | acceptFails
  | accept (fd : Int)
  /-- `malloc` of the task. -/
  | taskAlloc (ok : Bool)
  /-- `thread_pool_submit`. -/
  | submit (ok : Bool)
  /-- `close` by the accept loop. -/
  | drop
  /-- `sem_post` by the accept loop. -/
  | post
  /-- A worker starts the handler. -/
  | start (c : Nat)
  /-- `stats_inc_connections`. -/
  | count (c : Nat)
  /-- `auth_create_session`. -/
  | create (c : Nat)
  /-- `auth_create_session` fails for another reason than want of a slot. -/
  | refuse (c : Nat)
  /-- A step of the command loop. -/
  | command (a : SessionAct)
  /-- The handler leaves: `auth_remove_session`. -/
  | remove (c : Nat)
  /-- `stats_dec_connections`. -/
  | uncount (c : Nat)
  /-- `close`. -/
  | close (c : Nat)
  /-- `sem_post`. -/
  | release (c : Nat)

/-- The connection of a step that the command loop makes. -/
def SessionAct.inCommandLoop : SessionAct → Option Nat
  | .login c _ _ _ _ => some c
  | .loginSection c => some c
  | .logout c => some c
  | _ => none

namespace NetSys

/-- `tcp_server_create`, up to the first pass of the loop. -/
def init (now : Int) : NetSys := ⟨true, .top, MAX_CONNECTIONS, SessionSys.init, [], shmStatsCreate now⟩

/-- The `c`-th connection goes from `old` to `new`. -/
def advance (s : NetSys) (c : Nat) (old new : TaskPhase) : Option NetSys :=
  if s.tasks[c]? = some old then some { s with tasks := s.tasks.set c new } else none

/-- A step of the sessions. -/
def onSessions (s : NetSys) (a : SessionAct) : Option NetSys :=
  (s.sessions.step a).map fun sessions => { s with sessions := sessions }

/-- One step. -/
def step (s : NetSys) : NetAct → Option NetSys
  | .signal => some { s with running := false }
  | .enter =>
    if s.loop = .top then some { s with loop := if s.running then .waiting else .stopped } else none
  | .timeout => if s.loop = .waiting then some { s with loop := .top } else none
  | .wait =>
    if s.loop = .waiting ∧ 0 < s.semaphore then
      some { s with loop := .holding, semaphore := s.semaphore - 1 }
    else none
  | .check =>
    if s.loop = .holding then
      some { s with loop := if s.running then .accepting else .posting true }
    else none
  | .acceptFails => if s.loop = .accepting then some { s with loop := .posting false } else none
  | .accept fd =>
    if s.loop = .accepting then
      (s.onSessions (.accept fd)).map fun s' =>
        { s' with loop := .accepted s.tasks.length, tasks := s.tasks ++ [.held] }
    else none
  | .taskAlloc ok =>
    match s.loop with
    | .accepted c => some { s with loop := if ok then .submitting c else .dropping c }
    | _ => none
  | .submit ok =>
    match s.loop with
    | .submitting c =>
      if ok then (s.advance c .held .queued).map fun s' => { s' with loop := .top }
      else some { s with loop := .dropping c }
    | _ => none
  | .drop =>
    match s.loop with
    | .dropping c =>
      (s.advance c .held .dropped).bind fun s' =>
        (s'.onSessions (.close c)).map fun s'' => { s'' with loop := .posting false }
    | _ => none
  | .post =>
    match s.loop with
    | .posting leave =>
      some { s with semaphore := s.semaphore + 1, loop := if leave then .stopped else .top }
    | _ => none
  | .start c => s.advance c .queued .started
  | .count c =>
    (s.advance c .started .counted).map fun s' => { s' with stats := s.stats.incConnections }
  | .create c =>
    (s.onSessions (.create c)).bind fun s' =>
      s'.advance c .counted
        (if ((s'.sessions.conns[c]?).bind Conn.slot).isSome then .serving else .removed)
  | .refuse c => (s.onSessions (.abandon c)).bind fun s' => s'.advance c .counted .removed
  | .command a =>
    match a.inCommandLoop with
    | some c => if s.tasks[c]? = some .serving then s.onSessions a else none
    | none => none
  | .remove c => (s.onSessions (.remove c)).bind fun s' => s'.advance c .serving .removed
  | .uncount c =>
    (s.advance c .removed .uncounted).map fun s' => { s' with stats := s.stats.decConnections }
  | .close c => (s.onSessions (.close c)).bind fun s' => s'.advance c .uncounted .closed
  | .release c =>
    (s.advance c .closed .finished).map fun s' => { s' with semaphore := s.semaphore + 1 }

theorem advance_some {s s' : NetSys} {c : Nat} {old new : TaskPhase}
    (h : s.advance c old new = some s') :
    s.tasks[c]? = some old ∧ s' = { s with tasks := s.tasks.set c new } := by
  unfold advance at h
  split at h
  · rename_i hc
    cases h
    exact ⟨hc, rfl⟩
  · cases h

theorem onSessions_some {s s' : NetSys} {a : SessionAct} (h : s.onSessions a = some s') :
    ∃ sessions, s.sessions.step a = some sessions ∧ s' = { s with sessions := sessions } := by
  obtain ⟨sessions, hstep, rfl⟩ := Option.map_eq_some_iff.mp h
  exact ⟨sessions, hstep, rfl⟩

end NetSys

/-! ## The accounts -/

/-- Every slot is free, with the accept loop or with a connection; sessions and statistics follow
the handlers. -/
structure NetInv (s : NetSys) : Prop where
  sessions : SessionInv s.sessions
  length : s.tasks.length = s.sessions.conns.length
  slots : s.semaphore + s.loop.slots + s.tasks.countP TaskPhase.holdsSlot = MAX_CONNECTIONS
  live : s.sessions.auth.live = s.tasks.countP TaskPhase.hasSession
  active : s.stats.activeConnections.toNat = s.tasks.countP TaskPhase.isCounted
  fresh : ∀ {c : Nat} {t : TaskPhase}, s.tasks[c]? = some t → t.beforeSession = true →
    ∃ fd, s.sessions.conns[c]? = some (.opened fd)

namespace NetInv

variable {s : NetSys}

theorem init (now : Int) : NetInv (NetSys.init now) where
  sessions := SessionInv.init
  length := rfl
  slots := rfl
  live := by simp [NetSys.init, SessionSys.init, authCreate, AuthManager.live, sessionInit]
  active := rfl
  fresh := by
    intro c t hc
    simp [NetSys.init] at hc

/-- The accept loop moves and takes or gives back a slot. -/
theorem moveLoop (inv : NetInv s) {loop : AcceptLoop} {semaphore : Nat}
    (hslots : semaphore + loop.slots = s.semaphore + s.loop.slots) (running : Bool) :
    NetInv { s with running := running, loop := loop, semaphore := semaphore } where
  sessions := inv.sessions
  length := inv.length
  slots := by
    have h := inv.slots
    dsimp only
    omega
  live := inv.live
  active := inv.active
  fresh := inv.fresh

/-- One connection moves, and the accounts with it. -/
theorem moveTask (inv : NetInv s) {c : Nat} {old new : TaskPhase} {s' : NetSys}
    (hc : s.tasks[c]? = some old) (htasks : s'.tasks = s.tasks.set c new)
    (hsessions : SessionInv s'.sessions)
    (hlength : s'.sessions.conns.length = s.sessions.conns.length)
    (hothers : ∀ d, d ≠ c → s'.sessions.conns[d]? = s.sessions.conns[d]?)
    (hslots : s'.semaphore + s'.loop.slots + new.holdsSlot.toNat =
      s.semaphore + s.loop.slots + old.holdsSlot.toNat)
    (hlive : s'.sessions.auth.live + old.hasSession.toNat =
      s.sessions.auth.live + new.hasSession.toNat)
    (hactive : s'.stats.activeConnections.toNat + old.isCounted.toNat =
      s.stats.activeConnections.toNat + new.isCounted.toNat)
    (hfresh : new.beforeSession = true →
      old.beforeSession = true ∧ s'.sessions.conns[c]? = s.sessions.conns[c]?) : NetInv s' where
  sessions := hsessions
  length := by rw [htasks, List.length_set, hlength, inv.length]
  slots := by
    have h := inv.slots
    have hcount := countP_set_add TaskPhase.holdsSlot (b := new) hc
    rw [htasks]
    omega
  live := by
    have h := inv.live
    have hcount := countP_set_add TaskPhase.hasSession (b := new) hc
    rw [htasks]
    omega
  active := by
    have h := inv.active
    have hcount := countP_set_add TaskPhase.isCounted (b := new) hc
    rw [htasks]
    omega
  fresh := by
    intro d t hd ht
    rw [htasks] at hd
    rcases getElem?_set_cases hd with ⟨rfl, rfl⟩ | ⟨hne, hd⟩
    · rw [(hfresh ht).2]
      exact inv.fresh hc (hfresh ht).1
    · rw [hothers d hne]
      exact inv.fresh hd ht

/-- The counted connections have slots. -/
theorem active_le (inv : NetInv s) : s.tasks.countP TaskPhase.isCounted ≤ MAX_CONNECTIONS := by
  have hle : s.tasks.countP TaskPhase.isCounted ≤ s.tasks.countP TaskPhase.holdsSlot :=
    List.countP_mono_left fun t _ => by cases t <;> decide
  have h := inv.slots
  omega

/-- A connection that is about to ask for a session finds a free slot in the array. -/
theorem live_lt (inv : NetInv s) {c : Nat} (hc : s.tasks[c]? = some .counted) :
    s.sessions.auth.live < MAX_CONNECTIONS := by
  -- if it had its session already, the sessions would still be at most as many as the slots
  have hsession := countP_set_add TaskPhase.hasSession (b := .serving) hc
  have hslot := countP_set_add TaskPhase.holdsSlot (b := .serving) hc
  have hle : (s.tasks.set c .serving).countP TaskPhase.hasSession ≤
      (s.tasks.set c .serving).countP TaskPhase.holdsSlot :=
    List.countP_mono_left fun t _ => by cases t <;> decide
  have hslots := inv.slots
  have hlive := inv.live
  simp only [TaskPhase.hasSession, TaskPhase.holdsSlot, Bool.toNat_true, Bool.toNat_false] at *
  omega

/-- Every step keeps the accounts. -/
theorem step (inv : NetInv s) {a : NetAct} {s' : NetSys} (h : s.step a = some s') : NetInv s' := by
  cases a with
  | signal =>
    cases h
    exact inv.moveLoop rfl false
  | enter =>
    simp only [NetSys.step] at h
    split at h
    · rename_i hloop
      cases h
      refine inv.moveLoop ?_ s.running
      rw [hloop]
      split <;> rfl
    · cases h
  | timeout =>
    simp only [NetSys.step] at h
    split at h
    · rename_i hloop
      cases h
      exact inv.moveLoop (by rw [hloop]; rfl) s.running
    · cases h
  | wait =>
    simp only [NetSys.step] at h
    split at h
    · rename_i hwait
      cases h
      refine inv.moveLoop ?_ s.running
      rw [hwait.1]
      simp only [AcceptLoop.slots]
      omega
    · cases h
  | check =>
    simp only [NetSys.step] at h
    split at h
    · rename_i hloop
      cases h
      refine inv.moveLoop ?_ s.running
      rw [hloop]
      split <;> rfl
    · cases h
  | acceptFails =>
    simp only [NetSys.step] at h
    split at h
    · rename_i hloop
      cases h
      exact inv.moveLoop (by rw [hloop]; rfl) s.running
    · cases h
  | accept fd =>
    simp only [NetSys.step] at h
    split at h
    · rename_i hloop
      obtain ⟨s₁, h₁, rfl⟩ := Option.map_eq_some_iff.mp h
      obtain ⟨sessions, hstep, rfl⟩ := NetSys.onSessions_some h₁
      have hsessions := inv.sessions.step hstep
      have hlive := inv.sessions.step_live hstep (by simp) (by simp)
      simp only [SessionSys.step] at hstep
      split at hstep
      · cases hstep
        refine ⟨hsessions, ?_, ?_, ?_, ?_, ?_⟩
        · simp [inv.length]
        · have hslots := inv.slots
          rw [hloop] at hslots
          simpa [AcceptLoop.slots, TaskPhase.holdsSlot] using hslots
        · simpa [TaskPhase.hasSession] using inv.live
        · simpa [TaskPhase.isCounted] using inv.active
        · intro c t hc ht
          rcases getElem?_concat_cases hc with hc | ⟨rfl, -⟩
          · obtain ⟨f, hf⟩ := inv.fresh hc ht
            exact ⟨f, (List.getElem?_append_left (List.getElem?_eq_some_iff.mp hf).1).trans hf⟩
          · refine ⟨fd, ?_⟩
            rw [inv.length]
            exact List.getElem?_concat_length
      · cases hstep
    · cases h
  | taskAlloc ok =>
    simp only [NetSys.step] at h
    split at h
    · rename_i c hloop
      cases h
      refine inv.moveLoop ?_ s.running
      rw [hloop]
      split <;> rfl
    · cases h
  | submit ok =>
    simp only [NetSys.step] at h
    split at h
    · rename_i c hloop
      split at h
      · obtain ⟨s₁, h₁, rfl⟩ := Option.map_eq_some_iff.mp h
        obtain ⟨hc, rfl⟩ := NetSys.advance_some h₁
        exact inv.moveTask hc rfl inv.sessions rfl (fun _ _ => rfl) (by rw [hloop]; rfl) rfl rfl
          (fun _ => ⟨rfl, rfl⟩)
      · cases h
        exact inv.moveLoop (by rw [hloop]; rfl) s.running
    · cases h
  | drop =>
    simp only [NetSys.step] at h
    split at h
    · rename_i c hloop
      obtain ⟨s₁, h₁, h⟩ := Option.bind_eq_some_iff.mp h
      obtain ⟨hc, rfl⟩ := NetSys.advance_some h₁
      obtain ⟨s₂, h₂, rfl⟩ := Option.map_eq_some_iff.mp h
      obtain ⟨sessions, hstep, rfl⟩ := NetSys.onSessions_some h₂
      have hothers := SessionSys.step_others hstep rfl
      have hlive := inv.sessions.step_live hstep (by simp) (by simp)
      exact inv.moveTask hc rfl (inv.sessions.step hstep) hothers.1 hothers.2 (by rw [hloop]; rfl)
        (congrArg (· + 0) hlive) rfl (by simp [TaskPhase.beforeSession])
    · cases h
  | post =>
    simp only [NetSys.step] at h
    split at h
    · rename_i leave hloop
      cases h
      refine inv.moveLoop ?_ s.running
      rw [hloop]
      split <;> rfl
    · cases h
  | start c =>
    obtain ⟨hc, rfl⟩ := NetSys.advance_some h
    exact inv.moveTask hc rfl inv.sessions rfl (fun _ _ => rfl) rfl rfl rfl (fun _ => ⟨rfl, rfl⟩)
  | count c =>
    obtain ⟨s₁, h₁, rfl⟩ := Option.map_eq_some_iff.mp h
    obtain ⟨hc, rfl⟩ := NetSys.advance_some h₁
    refine inv.moveTask hc rfl inv.sessions rfl (fun _ _ => rfl) rfl rfl ?_ (fun _ => ⟨rfl, rfl⟩)
    -- the counter is far from its end
    have hle := inv.active_le
    rw [← inv.active, MAX_CONNECTIONS] at hle
    simp only [ServerStats.incConnections, TaskPhase.isCounted, Bool.toNat_false, Bool.toNat_true,
      UInt32.toNat_add, UInt32.toNat_one]
    omega
  | create c =>
    obtain ⟨s₁, h₁, h⟩ := Option.bind_eq_some_iff.mp h
    obtain ⟨sessions, hstep, rfl⟩ := NetSys.onSessions_some h₁
    obtain ⟨hc, rfl⟩ := NetSys.advance_some h
    have hothers := SessionSys.step_others hstep rfl
    rcases inv.sessions.step_create hstep with ⟨fd, slot, hconn, hlive⟩ | ⟨fd, hconn, hlive⟩
    · refine inv.moveTask hc rfl (inv.sessions.step hstep) hothers.1 hothers.2 ?_ ?_ ?_ ?_ <;>
        simp [hconn, Conn.slot, TaskPhase.holdsSlot, TaskPhase.hasSession, TaskPhase.isCounted,
          TaskPhase.beforeSession, hlive]
    · refine inv.moveTask hc rfl (inv.sessions.step hstep) hothers.1 hothers.2 ?_ ?_ ?_ ?_ <;>
        simp [hconn, Conn.slot, TaskPhase.holdsSlot, TaskPhase.hasSession, TaskPhase.isCounted,
          TaskPhase.beforeSession, hlive]
  | refuse c =>
    obtain ⟨s₁, h₁, h⟩ := Option.bind_eq_some_iff.mp h
    obtain ⟨sessions, hstep, rfl⟩ := NetSys.onSessions_some h₁
    obtain ⟨hc, rfl⟩ := NetSys.advance_some h
    have hothers := SessionSys.step_others hstep rfl
    have hlive := inv.sessions.step_live hstep (by simp) (by simp)
    exact inv.moveTask hc rfl (inv.sessions.step hstep) hothers.1 hothers.2 rfl
      (congrArg (· + 0) hlive) rfl (by simp [TaskPhase.beforeSession])
  | command a =>
    simp only [NetSys.step] at h
    split at h
    · rename_i c ha
      split at h
      · rename_i hc
        obtain ⟨sessions, hstep, rfl⟩ := NetSys.onSessions_some h
        have hconn : a.conn = some c := by
          cases a <;> simp_all [SessionAct.inCommandLoop, SessionAct.conn]
        have hothers := SessionSys.step_others hstep hconn
        have hlive := inv.sessions.step_live hstep (by rintro c rfl; cases ha)
          (by rintro c rfl; cases ha)
        have htasks : s.tasks = s.tasks.set c .serving := by
          obtain ⟨hlt, hget⟩ := List.getElem?_eq_some_iff.mp hc
          rw [← hget, List.set_getElem_self]
        exact inv.moveTask hc htasks (inv.sessions.step hstep) hothers.1 hothers.2 rfl
          (congrArg (· + 1) hlive) rfl (by simp [TaskPhase.beforeSession])
      · cases h
    · cases h
  | remove c =>
    obtain ⟨s₁, h₁, h⟩ := Option.bind_eq_some_iff.mp h
    obtain ⟨sessions, hstep, rfl⟩ := NetSys.onSessions_some h₁
    obtain ⟨hc, rfl⟩ := NetSys.advance_some h
    have hothers := SessionSys.step_others hstep rfl
    exact inv.moveTask hc rfl (inv.sessions.step hstep) hothers.1 hothers.2 rfl
      (inv.sessions.step_remove hstep) rfl (by simp [TaskPhase.beforeSession])
  | uncount c =>
    obtain ⟨s₁, h₁, rfl⟩ := Option.map_eq_some_iff.mp h
    obtain ⟨hc, rfl⟩ := NetSys.advance_some h₁
    refine inv.moveTask hc rfl inv.sessions rfl (fun _ _ => rfl) rfl rfl ?_
      (by simp [TaskPhase.beforeSession])
    -- this connection is still counted
    have hpos : 0 < s.tasks.countP TaskPhase.isCounted :=
      List.countP_pos_iff.mpr ⟨_, List.mem_of_getElem? hc, rfl⟩
    rw [← inv.active] at hpos
    simp only [ServerStats.decConnections, TaskPhase.isCounted, Bool.toNat_false, Bool.toNat_true]
    have hone : (1 : UInt32) ≤ s.stats.activeConnections := UInt32.le_iff_toNat_le.mpr hpos
    rw [UInt32.toNat_sub_of_le _ _ hone, UInt32.toNat_one]
    omega
  | close c =>
    obtain ⟨s₁, h₁, h⟩ := Option.bind_eq_some_iff.mp h
    obtain ⟨sessions, hstep, rfl⟩ := NetSys.onSessions_some h₁
    obtain ⟨hc, rfl⟩ := NetSys.advance_some h
    have hothers := SessionSys.step_others hstep rfl
    have hlive := inv.sessions.step_live hstep (by simp) (by simp)
    exact inv.moveTask hc rfl (inv.sessions.step hstep) hothers.1 hothers.2 rfl
      (congrArg (· + 0) hlive) rfl (by simp [TaskPhase.beforeSession])
  | release c =>
    obtain ⟨s₁, h₁, rfl⟩ := Option.map_eq_some_iff.mp h
    obtain ⟨hc, rfl⟩ := NetSys.advance_some h₁
    refine inv.moveTask hc rfl inv.sessions rfl (fun _ _ => rfl) ?_ rfl rfl
      (by simp [TaskPhase.beforeSession])
    simp only [TaskPhase.holdsSlot, Bool.toNat_false, Bool.toNat_true]
    omega

end NetInv

/-- **Connection slots are conserved.**  At any moment before `tcp_server_stop` is called, the
semaphore, the accept loop and the unfinished connections together have `MAX_CONNECTIONS` slots;
there are at most as many sessions as running handlers, and a handler that asks for a session gets
one; and the statistics count the handlers that have counted themselves in and not yet out. -/
theorem connection_slots_conserved {now : Int} {s : NetSys}
    (h : Reachable NetSys.step (fun _ _ => True) (NetSys.init now) s) :
    s.semaphore + s.loop.slots + s.tasks.countP TaskPhase.holdsSlot = MAX_CONNECTIONS ∧
    s.sessions.auth.live ≤ s.tasks.countP TaskPhase.inHandler ∧
    (∀ c : Nat, s.tasks[c]? = some .counted → ∃ fd slot auth,
      s.sessions.conns[c]? = some (.opened fd) ∧
        authCreateSession s.sessions.auth fd = some (slot, auth)) ∧
    s.stats.activeConnections.toNat = s.tasks.countP TaskPhase.isCounted := by
  have inv : NetInv s := h.invariant (NetInv.init now) fun _ _ _ inv _ hstep => inv.step hstep
  refine ⟨inv.slots, ?_, ?_, inv.active⟩
  · rw [inv.live]
    exact List.countP_mono_left fun t _ => by cases t <;> decide
  · intro c hc
    obtain ⟨fd, hfd⟩ := inv.fresh hc rfl
    obtain ⟨⟨slot, auth⟩, hcreate⟩ :=
      Option.isSome_iff_exists.mp (authCreateSession_isSome (inv.live_lt hc) fd)
    exact ⟨fd, slot, auth, hfd, hcreate⟩

/-- One connection is given up by the accept loop, another one is served and finished. -/
theorem connection_slots_conserved_finished : ∃ s,
    Reachable NetSys.step (fun _ _ => True) (NetSys.init 0) s ∧
      s.tasks = [.dropped, .finished] ∧ s.stats.activeConnections.toNat = 0 ∧
      s.semaphore + s.loop.slots + s.tasks.countP TaskPhase.holdsSlot = MAX_CONNECTIONS := by
  have hrun : (runSteps NetSys.step (fun _ _ => true) (NetSys.init 0)
      [.enter, .wait, .check, .accept 5, .taskAlloc false, .drop, .post, .enter, .wait, .check,
        .accept 5, .taskAlloc true, .submit true, .start 1, .count 1, .create 1, .remove 1,
        .uncount 1, .close 1, .release 1]).any
      (fun s => s.tasks == [.dropped, .finished]) = true := by
    decide +kernel
  obtain ⟨s, hs, hcheck⟩ := (Option.any_eq_true _ _).mp hrun
  have hreach := Reachable.of_runSteps (fun _ _ _ => trivial) hs
  have htasks : s.tasks = [.dropped, .finished] := by simpa using hcheck
  obtain ⟨hslots, -, -, hactive⟩ := connection_slots_conserved hreach
  refine ⟨s, hreach, htasks, ?_, hslots⟩
  rw [hactive, htasks]
  rfl

end Ticketing
