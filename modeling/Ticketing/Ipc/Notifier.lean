import Ticketing.Lib.CText
import Ticketing.Lib.Channel
import Ticketing.Lib.Runs
import Ticketing.Lib.ThreadLists
import Mathlib.Data.List.GetD

/-!
# Notifications (`server/ipc/notifier.c`)

Callers put messages into a System V queue without waiting, and one thread takes them out.  The queue
outlives the process that made it, so `notifier_create` may find messages in it; `notifier_destroy`
removes it.  The steps of all threads are interleaved; nobody else uses the queue.

* `Notification.msg` — the message of each `notify_*` call.
* `Notifier.step` — `send_notification`, `consumer_thread` and `notifier_destroy`, step by step.
* `ConsumerStep` — what a step of the consumer thread is.
* `NotifierInv`, `NotifierInv.step` — where the messages are.
* `notifications_in_order` — what is logged, what is lost and that the threads end.
-/

set_option autoImplicit false

namespace Ticketing

open CText

/-! ## Messages -/

/-- `notification_msg_t`. -/
structure NotificationMsg where
  mtype : Nat
  payload : CStr
  deriving DecidableEq, Repr

def NOTIFY_BOOKING_CONFIRMED : Nat := 1
def NOTIFY_BOOKING_CANCELLED : Nat := 2
def NOTIFY_EVENT_CREATED : Nat := 3
def NOTIFY_SYSTEM_ALERT : Nat := 4

/-- `sizeof(msg.payload)`, and the size of the buffers that the texts are printed into. -/
def NOTIFICATION_SIZE : Nat := 256

/-- A call of one of the `notify_*` functions. -/
inductive Notification where
  | bookingConfirmed (bookingId userId eventId : UInt32) (numSeats : Int)
  | bookingCancelled (bookingId userId : UInt32)
  | eventCreated (eventId : UInt32) (eventName : CStr)
  | systemAlert (message : CStr)
  deriving DecidableEq, Repr

/-- What the call has to say. -/
def Notification.format : Notification → CStr
  | .bookingConfirmed bookingId userId eventId numSeats =>
    CText.text "Booking #" ++ decimal bookingId.toNat ++ CText.text " confirmed: user " ++
      decimal userId.toNat ++ CText.text " booked " ++ decimalInt numSeats ++
      CText.text " seats for event " ++ decimal eventId.toNat
  | .bookingCancelled bookingId userId =>
    CText.text "Booking #" ++ decimal bookingId.toNat ++ CText.text " cancelled by user " ++
      decimal userId.toNat
  | .eventCreated eventId eventName =>
    CText.text "New event created: '" ++ eventName ++ CText.text "' (ID: " ++ decimal eventId.toNat ++
      CText.text ")"
  | .systemAlert message => message

/-- The text that it passes on; all but the last print it into a buffer. -/
def Notification.text : Notification → CStr
  | .systemAlert message => message
  | n => strlcpy NOTIFICATION_SIZE n.format

/-- The type that the call passes on. -/
def Notification.mtype : Notification → Nat
  | .bookingConfirmed _ _ _ _ => NOTIFY_BOOKING_CONFIRMED
  | .bookingCancelled _ _ => NOTIFY_BOOKING_CANCELLED
  | .eventCreated _ _ => NOTIFY_EVENT_CREATED
  | .systemAlert _ => NOTIFY_SYSTEM_ALERT

/-- The message that `send_notification` builds. -/
def Notification.msg (n : Notification) : NotificationMsg := ⟨n.mtype, strlcpy NOTIFICATION_SIZE n.text⟩

/-- What arrives is cut where the payload ends. -/
theorem Notification.payload_eq (n : Notification) : n.msg.payload = strlcpy NOTIFICATION_SIZE n.format := by
  have htwice : ∀ s : CStr, strlcpy NOTIFICATION_SIZE (strlcpy NOTIFICATION_SIZE s) = strlcpy NOTIFICATION_SIZE s :=
    fun s => by rw [strlcpy, strlcpy, List.take_take, Nat.min_self]
  cases n with
  | systemAlert message => rfl
  | bookingConfirmed bookingId userId eventId numSeats => exact htwice _
  | bookingCancelled bookingId userId => exact htwice _
  | eventCreated eventId eventName => exact htwice _

/-- Notifications of bookings arrive whole. -/
theorem Notification.payload_booking {bookingId userId eventId : UInt32} {numSeats : Int}
    (hseats : numSeats.natAbs ≤ 2 ^ 31) :
    (Notification.bookingConfirmed bookingId userId eventId numSeats).msg.payload =
        (Notification.bookingConfirmed bookingId userId eventId numSeats).format ∧
      (Notification.bookingCancelled bookingId userId).msg.payload =
        (Notification.bookingCancelled bookingId userId).format := by
  have hid : ∀ n : UInt32, (decimal n.toNat).length ≤ 10 := fun n =>
    length_decimal_le (by decide) (Nat.lt_trans n.toNat_lt (by decide))
  have hbooking := hid bookingId
  have huser := hid userId
  have hevent := hid eventId
  have hnum : (decimalInt numSeats).length ≤ 11 := length_decimalInt_le (by decide) (by omega)
  have hfront : (CText.text "Booking #").length = 9 := by decide
  have hconfirmed : (CText.text " confirmed: user ").length = 17 := by decide
  have hbooked : (CText.text " booked ").length = 8 := by decide
  have hfor : (CText.text " seats for event ").length = 17 := by decide
  have hcancelled : (CText.text " cancelled by user ").length = 19 := by decide
  rw [payload_eq, payload_eq]
  constructor
  · refine List.take_of_length_le ?_
    simp only [format, List.length_append, hfront, hconfirmed, hbooked, hfor, NOTIFICATION_SIZE]
    omega
  · refine List.take_of_length_le ?_
    simp only [format, List.length_append, hfront, hcancelled, NOTIFICATION_SIZE]
    omega

/-- The line that the consumer logs. -/
def NotificationMsg.line (m : NotificationMsg) : CStr :=
  let typeStr :=
    if m.mtype = NOTIFY_BOOKING_CONFIRMED then CText.text "BOOKING_CONFIRMED"
    else if m.mtype = NOTIFY_BOOKING_CANCELLED then CText.text "BOOKING_CANCELLED"
    else if m.mtype = NOTIFY_EVENT_CREATED then CText.text "EVENT_CREATED"
    else if m.mtype = NOTIFY_SYSTEM_ALERT then CText.text "SYSTEM_ALERT"
    else CText.text "UNKNOWN"
  CText.text "notifier: [" ++ typeStr ++ CText.text "] " ++ m.payload

/-! ## The threads -/

/-- Where the consumer is. -/
inductive ConsumerPhase where
  /-- Before it looks at `running`. -/
  | top
  /-- Before it calls `msgrcv`. -/
  | calling
  /-- Asleep in `msgrcv`. -/
  | waiting
  | processing (m : NotificationMsg)
  | exited
  deriving DecidableEq, Repr

/-- The message in its hands. -/
def ConsumerPhase.inHand : ConsumerPhase → List NotificationMsg
  | .processing m => [m]
  | _ => []

/-- Where a call of `send_notification` is. -/
inductive SendPhase where
  | entering
  /-- Before it calls `msgsnd`. -/
  | sending
  /-- Returned without a message in the queue. -/
  | dropped
  /-- Returned after `msgsnd` has taken the message. -/
  | accepted
  deriving DecidableEq, Repr

/-- Where `notifier_destroy` is. -/
inductive NotifierEnd where
  | idle
  /-- After `running = 0`. -/
  | stopped
  /-- After `msgctl(IPC_RMID)`. -/
  | joining
  | joined
  deriving DecidableEq, Repr

/-- `notifier_t`, its queue and its threads.  What is still in the queue when it is removed stays in
`pending`. -/
structure Notifier where
  running : Bool
  removed : Bool
  queue : Channel NotificationMsg
  consumer : ConsumerPhase
  destroyer : NotifierEnd
  calls : List Notification
  sends : List SendPhase
  /-- The calls whose messages the queue took, in order. -/
  accepted : List Nat
  /-- The messages that have been logged, in order. -/
  logged : List NotificationMsg

/-- A step of one thread. -/
inductive NotifierAct where
  /-- A new call. -/
  | call (n : Notification)
  /-- It looks at `running`. -/
  | check (k : Nat)
  /-- Its `msgsnd`, which the kernel refuses when the queue is full. -/
  | send (k : Nat) (full : Bool)
  /-- The consumer looks at `running`. -/
  | loop
  /-- Its `msgrcv`; on a queue that is gone it fails with `EIDRM` or `EINVAL`. -/
  | receive (idrm : Bool)
  /-- A signal ends its `msgrcv`. -/
  | interrupt
  /-- It logs the message. -/
  | process
  /-- `running = 0`. -/
  | stop
  /-- `msgctl(IPC_RMID)`. -/
  | remove
  /-- `pthread_join`. -/
  | join
  deriving DecidableEq, Repr

namespace Notifier

/-- `notifier_create`, with the messages it finds in the queue. -/
def create (left : List NotificationMsg) : Notifier :=
  ⟨true, false, Channel.opened left, .top, .idle, [], [], [], []⟩

/-- The message of call `k`. -/
def message (s : Notifier) (k : Nat) : NotificationMsg := (s.calls.getD k (.systemAlert [])).msg

/-- `msgrcv` on a queue that is there. -/
def take (s : Notifier) : Option Notifier :=
  s.queue.pending.head?.map fun m => { s with queue := s.queue.receive 1, consumer := .processing m }

/-- One step. -/
def step (s : Notifier) : NotifierAct → Option Notifier
  -- the memory is released after the join
  | .call n =>
    if s.destroyer = .joined then none
    else some { s with calls := s.calls ++ [n], sends := s.sends ++ [.entering] }
  | .check k =>
    if s.sends[k]? = some .entering then
      some { s with sends := s.sends.set k (if s.running then .sending else .dropped) }
    else none
  | .send k full =>
    if s.sends[k]? = some .sending then
      if s.removed ∨ full then some { s with sends := s.sends.set k .dropped }
      else
        some
          { s with
            queue := s.queue.send [s.message k], sends := s.sends.set k .accepted,
            accepted := s.accepted ++ [k] }
    else none
  | .loop =>
    if s.consumer = .top then some { s with consumer := if s.running then .calling else .exited } else none
  | .receive idrm =>
    if s.consumer = .calling then
      -- `EINVAL` is logged, and the loop goes on
      if s.removed then some { s with consumer := if idrm then .exited else .top }
      else some (s.take.getD { s with consumer := .waiting })
    else if s.consumer = .waiting then
      if s.removed then some { s with consumer := .exited } else s.take
    else none
  | .interrupt => if s.consumer = .waiting then some { s with consumer := .exited } else none
  | .process =>
    s.consumer.inHand.head?.map fun m => { s with logged := s.logged ++ [m], consumer := .top }
  | .stop =>
    if s.destroyer = .idle then some { s with running := false, destroyer := .stopped } else none
  | .remove =>
    if s.destroyer = .stopped then some { s with removed := true, destroyer := .joining } else none
  | .join =>
    if s.destroyer = .joining ∧ s.consumer = .exited then some { s with destroyer := .joined } else none

end Notifier

/-- The steps of the consumer. -/
def NotifierAct.isConsumer : NotifierAct → Bool
  | .loop => true
  | .receive _ => true
  | .process => true
  | _ => false

/-- What a step of the consumer does. -/
inductive ConsumerStep (s : Notifier) : Notifier → Prop where
  | goOn (hrunning : s.running = true) (h : s.consumer = .top) : ConsumerStep s { s with consumer := .calling }
  | leave (hstopped : s.running = false) (h : s.consumer = .top) : ConsumerStep s { s with consumer := .exited }
  | again (hgone : s.removed = true) (h : s.consumer = .calling) : ConsumerStep s { s with consumer := .top }
  | gone (hgone : s.removed = true) (h : s.consumer = .calling ∨ s.consumer = .waiting) :
      ConsumerStep s { s with consumer := .exited }
  | wait (hthere : s.removed = false) (h : s.consumer = .calling) : ConsumerStep s { s with consumer := .waiting }
  | take (hthere : s.removed = false) (h : s.consumer = .calling ∨ s.consumer = .waiting) {s' : Notifier}
      (htake : s.take = some s') : ConsumerStep s s'
  | process {m : NotificationMsg} (h : s.consumer = .processing m) :
      ConsumerStep s { s with logged := s.logged ++ [m], consumer := .top }

theorem Notifier.consumerStep_of_step (s : Notifier) {s' : Notifier} {a : NotifierAct} (ha : a.isConsumer = true)
    (hs : s.step a = some s') : ConsumerStep s s' := by
  cases a with
  | loop =>
    simp only [Notifier.step] at hs
    split at hs
    · rename_i htop
      cases hs
      split
      · rename_i hrunning
        exact .goOn hrunning htop
      · rename_i hstopped
        exact .leave (eq_false_of_ne_true hstopped) htop
    · cases hs
  | receive idrm =>
    simp only [Notifier.step] at hs
    split at hs
    · rename_i hcalling
      split at hs
      · rename_i hgone
        cases hs
        cases idrm with
        | true => exact .gone hgone (Or.inl hcalling)
        | false => exact .again hgone hcalling
      · rename_i hthere
        have hthere := eq_false_of_ne_true hthere
        cases htake : s.take with
        | none =>
          rw [htake] at hs
          cases hs
          exact .wait hthere hcalling
        | some taken =>
          rw [htake] at hs
          cases hs
          exact .take hthere (Or.inl hcalling) htake
    · split at hs
      · rename_i hwaiting
        split at hs
        · rename_i hgone
          cases hs
          exact .gone hgone (Or.inr hwaiting)
        · rename_i hthere
          exact .take (eq_false_of_ne_true hthere) (Or.inr hwaiting) hs
      · cases hs
  | process =>
    obtain ⟨m, hm, rfl⟩ := Option.map_eq_some_iff.mp hs
    cases hc : s.consumer with
    | processing m' =>
      rw [hc] at hm
      cases hm
      exact .process hc
    | top => rw [hc] at hm; cases hm
    | calling => rw [hc] at hm; cases hm
    | waiting => rw [hc] at hm; cases hm
    | exited => rw [hc] at hm; cases hm
  | call n => cases ha
  | check k => cases ha
  | send k full => cases ha
  | interrupt => cases ha
  | stop => cases ha
  | remove => cases ha
  | join => cases ha

/-! ## The invariant -/

/-- The messages that were found in the queue are `left`. -/
structure NotifierInv (left : List NotificationMsg) (s : Notifier) : Prop where
  intact : s.queue.Intact
  sent : s.queue.sent = left ++ s.accepted.map s.message
  received : s.queue.received = s.logged ++ s.consumer.inHand
  threads : s.sends.length = s.calls.length
  accepted : Listed .accepted s.sends s.accepted
  running : s.running = true ↔ s.destroyer = .idle
  removed : s.removed = true ↔ s.destroyer = .joining ∨ s.destroyer = .joined
  ended : s.destroyer = .joined → s.consumer = .exited

namespace NotifierInv

variable {left : List NotificationMsg} {s s' : Notifier}

theorem create (left : List NotificationMsg) : NotifierInv left (Notifier.create left) where
  intact := Channel.intact_opened left
  sent := (List.append_nil left).symm
  received := rfl
  threads := rfl
  accepted := listed_nil _
  running := ⟨fun _ => rfl, fun _ => rfl⟩
  removed := ⟨fun h => (by cases h), fun h => (by rcases h with h | h <;> cases h)⟩
  ended h := by cases h

/-- A new call. -/
theorem call (inv : NotifierInv left s) (n : Notification) :
    NotifierInv left { s with calls := s.calls ++ [n], sends := s.sends ++ [.entering] } := by
  refine ⟨inv.intact, ?_, inv.received, ?_, inv.accepted.concat (by decide), inv.running, inv.removed, inv.ended⟩
  · rw [inv.sent]
    refine congrArg _ (List.map_congr_left fun k hk => ?_)
    unfold Notifier.message
    rw [List.getD_append _ _ _ _ (inv.threads ▸ inv.accepted.lt hk)]
  · rw [List.length_append, List.length_append, inv.threads]
    rfl

/-- A call goes on without having sent. -/
theorem moveSend (inv : NotifierInv left s) {k : Nat} {old new : SendPhase} (hold : s.sends[k]? = some old)
    (hne : old ≠ .accepted) (hnew : new ≠ .accepted) :
    NotifierInv left { s with sends := s.sends.set k new } :=
  ⟨inv.intact, inv.sent, inv.received, (List.length_set ..).trans inv.threads,
    inv.accepted.move hold hne hnew, inv.running, inv.removed, inv.ended⟩

/-- The queue takes a message. -/
theorem send (inv : NotifierInv left s) {k : Nat} (hold : s.sends[k]? = some .sending) :
    NotifierInv left
      { s with
        queue := s.queue.send [s.message k], sends := s.sends.set k .accepted,
        accepted := s.accepted ++ [k] } := by
  refine ⟨inv.intact.send _, ?_, inv.received, (List.length_set ..).trans inv.threads,
    inv.accepted.enter hold (by decide), inv.running, inv.removed, inv.ended⟩
  show s.queue.sent ++ [s.message k] = left ++ (s.accepted ++ [k]).map s.message
  rw [inv.sent, List.map_append, List.append_assoc]
  rfl

/-- The consumer goes on with nothing in its hands. -/
theorem moveConsumer (inv : NotifierInv left s) {c : ConsumerPhase} (hold : s.consumer.inHand = [])
    (hnew : c.inHand = []) (hended : s.destroyer = .joined → c = .exited) :
    NotifierInv left { s with consumer := c } := by
  refine ⟨inv.intact, inv.sent, ?_, inv.threads, inv.accepted, inv.running, inv.removed, hended⟩
  have hreceived := inv.received
  rw [hold] at hreceived
  show s.queue.received = s.logged ++ c.inHand
  rw [hnew]
  exact hreceived

/-- It takes a message. -/
theorem take (inv : NotifierInv left s) (hold : s.consumer.inHand = []) (hgone : s.removed = false)
    (hs : s.take = some s') : NotifierInv left s' := by
  obtain ⟨m, hm, rfl⟩ := Option.map_eq_some_iff.mp hs
  refine ⟨inv.intact.receive 1, inv.sent, ?_, inv.threads, inv.accepted, inv.running, inv.removed,
    fun hjoined => ?_⟩
  · obtain ⟨rest, hrest⟩ := List.head?_eq_some_iff.mp hm
    have hreceived := inv.received
    rw [hold, List.append_nil] at hreceived
    show s.queue.received ++ s.queue.pending.take 1 = s.logged ++ [m]
    rw [hreceived, hrest]
    rfl
  · have hremoved := inv.removed.mpr (Or.inr hjoined)
    rw [hgone] at hremoved
    cases hremoved

/-- It logs the message. -/
theorem process (inv : NotifierInv left s) {m : NotificationMsg} (hm : s.consumer.inHand = [m]) :
    NotifierInv left { s with logged := s.logged ++ [m], consumer := .top } := by
  refine ⟨inv.intact, inv.sent, ?_, inv.threads, inv.accepted, inv.running, inv.removed,
    fun hjoined => ?_⟩
  · have hreceived := inv.received
    rw [hm] at hreceived
    rw [hreceived]
    exact (List.append_nil _).symm
  · have hexited := inv.ended hjoined
    rw [hexited] at hm
    cases hm

/-- A consumer that has not ended is not joined. -/
theorem not_joined (inv : NotifierInv left s) (h : s.consumer ≠ .exited) {P : Prop}
    (hjoined : s.destroyer = .joined) : P := absurd (inv.ended hjoined) h

/-- **A step of the consumer** keeps the invariant. -/
theorem consumerStep (inv : NotifierInv left s) (hs : ConsumerStep s s') : NotifierInv left s' := by
  cases hs with
  | goOn _ htop => exact inv.moveConsumer (by rw [htop]; rfl) rfl (inv.not_joined (by rw [htop]; decide))
  | leave _ htop => exact inv.moveConsumer (by rw [htop]; rfl) rfl fun _ => rfl
  | again _ hcalling =>
    exact inv.moveConsumer (by rw [hcalling]; rfl) rfl (inv.not_joined (by rw [hcalling]; decide))
  | gone _ hold => exact inv.moveConsumer (by rcases hold with hold | hold <;> rw [hold] <;> rfl) rfl fun _ => rfl
  | wait _ hcalling =>
    exact inv.moveConsumer (by rw [hcalling]; rfl) rfl (inv.not_joined (by rw [hcalling]; decide))
  | take hgone hold htake =>
    exact inv.take (by rcases hold with hold | hold <;> rw [hold] <;> rfl) hgone htake
  | process hm => exact inv.process (by rw [hm]; rfl)

/-- **One step** keeps the invariant. -/
theorem step (inv : NotifierInv left s) {a : NotifierAct} (hs : s.step a = some s') :
    NotifierInv left s' := by
  cases a with
  | call n =>
    simp only [Notifier.step] at hs
    split at hs
    · cases hs
    · cases hs
      exact inv.call n
  | check k =>
    simp only [Notifier.step] at hs
    split at hs
    · rename_i hk
      cases hs
      refine inv.moveSend hk (by decide) ?_
      split <;> decide
    · cases hs
  | send k full =>
    simp only [Notifier.step] at hs
    split at hs
    · rename_i hk
      split at hs
      · cases hs
        exact inv.moveSend hk (by decide) (by decide)
      · cases hs
        exact inv.send hk
    · cases hs
  | loop => exact inv.consumerStep (s.consumerStep_of_step rfl hs)
  | receive idrm => exact inv.consumerStep (s.consumerStep_of_step rfl hs)
  | process => exact inv.consumerStep (s.consumerStep_of_step rfl hs)
  | interrupt =>
    simp only [Notifier.step] at hs
    split at hs
    · rename_i hwaiting
      cases hs
      exact inv.moveConsumer (by rw [hwaiting]; rfl) rfl fun _ => rfl
    · cases hs
  | stop =>
    simp only [Notifier.step] at hs
    split at hs
    · rename_i hidle
      cases hs
      have hgone : ¬ s.removed = true := fun h => by
        rcases inv.removed.mp h with h | h
        · rw [hidle] at h
          cases h
        · rw [hidle] at h
          cases h
      exact ⟨inv.intact, inv.sent, inv.received, inv.threads, inv.accepted,
        ⟨fun h => (by cases h), fun h => (by cases h)⟩,
        ⟨fun h => absurd h hgone, fun h => (by rcases h with h | h <;> cases h)⟩, fun h => (by cases h)⟩
    · cases hs
  | remove =>
    simp only [Notifier.step] at hs
    split at hs
    · rename_i hstopped
      cases hs
      have hrunning : ¬ s.running = true := fun h => by
        have hidle := inv.running.mp h
        rw [hstopped] at hidle
        cases hidle
      exact ⟨inv.intact, inv.sent, inv.received, inv.threads, inv.accepted,
        ⟨fun h => absurd h hrunning, fun h => (by cases h)⟩, ⟨fun _ => Or.inl rfl, fun _ => rfl⟩,
        fun h => (by cases h)⟩
    · cases hs
  | join =>
    simp only [Notifier.step] at hs
    split at hs
    · rename_i hboth
      obtain ⟨hjoining, hexited⟩ := hboth
      cases hs
      have hrunning : ¬ s.running = true := fun h => by
        have hidle := inv.running.mp h
        rw [hjoining] at hidle
        cases hidle
      exact ⟨inv.intact, inv.sent, inv.received, inv.threads, inv.accepted,
        ⟨fun h => absurd h hrunning, fun h => (by cases h)⟩,
        ⟨fun _ => Or.inr rfl, fun _ => inv.removed.mpr (Or.inl hjoining)⟩, fun _ => hexited⟩
    · cases hs

end NotifierInv

/-! ## Progress -/

/-- What is left to do for the messages in the queue. -/
def Notifier.work (s : Notifier) : Nat :=
  4 * s.queue.pending.length +
    match s.consumer with
    | .processing _ => 3
    | .top => 2
    | .calling => 1
    | .waiting => 0
    | .exited => 0

/-- How far the consumer is from its end once the queue is gone. -/
def ConsumerPhase.distance : ConsumerPhase → Nat
  | .exited => 0
  | .top => 1
  | .waiting => 1
  | .calling => 2
  | .processing _ => 2

section Progress

variable {left : List NotificationMsg} {s s' : Notifier} {a : NotifierAct}

/-- Taking a message is work done. -/
theorem Notifier.take_work (hold : s.consumer = .calling ∨ s.consumer = .waiting) (hs : s.take = some s') :
    s'.work < s.work := by
  obtain ⟨m, hm, rfl⟩ := Option.map_eq_some_iff.mp hs
  obtain ⟨rest, hrest⟩ := List.head?_eq_some_iff.mp hm
  simp only [Notifier.work, Channel.receive, hrest, List.drop_succ_cons, List.drop_zero, List.length_cons]
  rcases hold with hold | hold <;> rw [hold] <;> dsimp only <;> omega

/-- Every step of the consumer is work done, as long as nobody stops it. -/
theorem Notifier.step_work (hrunning : s.running = true) (hgone : s.removed = false)
    (ha : a.isConsumer = true) (hs : s.step a = some s') : s'.work < s.work := by
  cases s.consumerStep_of_step ha hs with
  | goOn _ htop =>
    simp only [Notifier.work, htop]
    omega
  | leave hstopped _ => rw [hrunning] at hstopped; cases hstopped
  | again hremoved _ => rw [hgone] at hremoved; cases hremoved
  | gone hremoved _ => rw [hgone] at hremoved; cases hremoved
  | wait _ hcalling =>
    simp only [Notifier.work, hcalling]
    omega
  | take _ hold htake => exact take_work hold htake
  | process hm =>
    simp only [Notifier.work, hm]
    omega

/-- Work to do can be done. -/
theorem Notifier.exists_step_of_work (hgone : s.removed = false) (hlive : s.consumer ≠ .exited)
    (hwork : 0 < s.work) : ∃ a, a.isConsumer = true ∧ (s.step a).isSome = true := by
  cases hc : s.consumer with
  | processing m => exact ⟨.process, rfl, by simp [Notifier.step, hc, ConsumerPhase.inHand]⟩
  | top => exact ⟨.loop, rfl, by simp [Notifier.step, hc]⟩
  | calling => exact ⟨.receive true, rfl, by simp [Notifier.step, hc, hgone]⟩
  | waiting =>
    simp only [Notifier.work, hc, Nat.add_zero] at hwork
    obtain ⟨m, rest, hpending⟩ := List.exists_cons_of_length_pos (l := s.queue.pending) (by omega)
    exact ⟨.receive true, rfl, by simp [Notifier.step, hc, hgone, Notifier.take, hpending]⟩
  | exited => exact absurd hc hlive

/-- Once the queue is gone, every step of the consumer leads to its end. -/
theorem Notifier.step_distance (hstopped : s.running = false) (hgone : s.removed = true)
    (ha : a.isConsumer = true) (hs : s.step a = some s') : s'.consumer.distance < s.consumer.distance := by
  cases s.consumerStep_of_step ha hs with
  | goOn hrunning _ => rw [hstopped] at hrunning; cases hrunning
  | leave _ htop =>
    rw [htop]
    exact Nat.lt_succ_self 0
  | again _ hcalling =>
    rw [hcalling]
    exact Nat.lt_succ_self 1
  | gone _ hold => rcases hold with hold | hold <;> rw [hold] <;> exact Nat.succ_pos _
  | wait hthere _ => rw [hgone] at hthere; cases hthere
  | take hthere _ _ => rw [hgone] at hthere; cases hthere
  | process hm =>
    rw [hm]
    exact Nat.lt_succ_self 1

/-- And it can take one. -/
theorem Notifier.exists_step_of_distance (hgone : s.removed = true) (hlive : s.consumer ≠ .exited) :
    ∃ a, a.isConsumer = true ∧ (s.step a).isSome = true := by
  cases hc : s.consumer with
  | processing m => exact ⟨.process, rfl, by simp [Notifier.step, hc, ConsumerPhase.inHand]⟩
  | top => exact ⟨.loop, rfl, by simp [Notifier.step, hc]⟩
  | calling => exact ⟨.receive true, rfl, by simp [Notifier.step, hc, hgone]⟩
  | waiting => exact ⟨.receive true, rfl, by simp [Notifier.step, hc, hgone]⟩
  | exited => exact absurd hc hlive

/-! ## Runs -/

/-- **Notifications arrive once and in order.**  In every interleaving of `notify_*` calls, the consumer and
`notifier_destroy`, with a queue that may be full at any time and signals that may end the consumer:

* what is logged, in the consumer's hands and in the queue are the messages found at the start and those of
  the calls whose `msgsnd` succeeded, in that order, each of these calls once;
* as long as nobody stops the consumer, it can go on while there is work, every step of it leaves less, and
  with no work left everything accepted is logged;
* once the queue is removed, the consumer can go on until it ends, each step brings it nearer to its end, and
  what is then still in the queue is lost. -/
theorem notifications_in_order (h : Reachable Notifier.step (fun _ _ => True) (Notifier.create left) s) :
    s.logged ++ s.consumer.inHand ++ s.queue.pending = left ++ s.accepted.map s.message ∧
      (s.accepted.Nodup ∧ ∀ k, k ∈ s.accepted ↔ s.sends[k]? = some .accepted) ∧
      (s.running = true → s.consumer ≠ .exited →
        (0 < s.work → ∃ a, a.isConsumer = true ∧ (s.step a).isSome = true) ∧
        (∀ a s', a.isConsumer = true → s.step a = some s' → s'.work < s.work) ∧
        (s.work = 0 → s.logged = left ++ s.accepted.map s.message)) ∧
      (s.removed = true →
        (s.consumer ≠ .exited → ∃ a, a.isConsumer = true ∧ (s.step a).isSome = true) ∧
        (∀ a s', a.isConsumer = true → s.step a = some s' → s'.consumer.distance < s.consumer.distance)) ∧
      (s.destroyer = .joined → s.logged ++ s.queue.pending = left ++ s.accepted.map s.message) := by
  have inv : NotifierInv left s :=
    Reachable.invariant (NotifierInv.create left) (fun s a s' inv _ hs => inv.step hs) h
  have horder : s.logged ++ s.consumer.inHand ++ s.queue.pending = left ++ s.accepted.map s.message := by
    rw [← inv.received, ← inv.sent]
    exact inv.intact
  refine ⟨horder, ⟨inv.accepted.nodup, inv.accepted.mem⟩, fun hrunning hlive => ?_, fun hgone => ?_, fun hjoined => ?_⟩
  · have hthere : s.removed = false := by
      rw [← Bool.not_eq_true, inv.removed, inv.running.mp hrunning]
      decide
    refine ⟨Notifier.exists_step_of_work hthere hlive, fun a s' ha hs => ?_, fun hdone => ?_⟩
    · exact Notifier.step_work hrunning hthere ha hs
    · cases hc : s.consumer with
      | waiting =>
        simp only [Notifier.work, hc, Nat.add_zero] at hdone
        have hempty : s.queue.pending = [] := List.eq_nil_of_length_eq_zero (by omega)
        rw [hempty, hc, List.append_nil] at horder
        rw [← horder]
        exact (List.append_nil _).symm
      | processing m => simp only [Notifier.work, hc] at hdone; omega
      | top => simp only [Notifier.work, hc] at hdone; omega
      | calling => simp only [Notifier.work, hc] at hdone; omega
      | exited => exact absurd hc hlive
  · have hstopped : s.running = false := by
      rw [← Bool.not_eq_true, inv.running]
      rcases inv.removed.mp hgone with hd | hd <;> rw [hd] <;> decide
    exact ⟨Notifier.exists_step_of_distance hgone, fun a s' => Notifier.step_distance hstopped hgone⟩
  · rw [inv.ended hjoined] at horder
    rw [← horder]
    exact congrArg (· ++ s.queue.pending) (List.append_nil _).symm

end Progress

/-- A message is left from an earlier process; one call sends, the consumer logs the first message, and the
queue is removed with the second in it. -/
theorem notifications_in_order_removed : ∃ s,
    Reachable Notifier.step (fun _ _ => True) (Notifier.create [⟨4, text "hello"⟩]) s ∧
      s.destroyer = .joined ∧
      s.logged ++ s.queue.pending = [⟨4, text "hello"⟩] ++ s.accepted.map s.message := by
  have hrun : ∃ s, runSteps Notifier.step (fun _ _ => true) (Notifier.create [⟨4, text "hello"⟩])
      [.call (.bookingCancelled 7 3), .check 0, .loop, .send 0 false, .receive true, .process, .stop, .remove,
        .loop, .join] = some s ∧ s.destroyer = .joined := ⟨_, rfl, rfl⟩
  obtain ⟨s, hrun, hjoined⟩ := hrun
  have hreach : Reachable Notifier.step (fun _ _ => True) (Notifier.create [⟨4, text "hello"⟩]) s :=
    Reachable.of_runSteps (fun _ _ _ => trivial) hrun
  obtain ⟨-, -, -, -, hend⟩ := notifications_in_order hreach
  exact ⟨s, hreach, hjoined, hend hjoined⟩

end Ticketing
