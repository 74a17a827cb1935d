import Ticketing.Lib.LinkedQueue
import Ticketing.Lib.ThreadLists
import Ticketing.Lib.Runs

/-!
# Thread pool (`server/network/thread_pool.c`)

A bounded queue of tasks between submitters and workers.  The steps of all threads are interleaved
at the pool mutex and cut where a thread waits on a condition variable; a signal wakes one of the
waiting threads, if there is one, and any waiting thread may wake up without a signal.  The memory
of the pool is released after the last join.

* `WorkerPhase`, `SubmitPhase`, `DestroyPhase` — where the threads are.
* `ThreadPool.step` — `worker_thread`, `thread_pool_submit` and `thread_pool_destroy`, step by step.
* `ThreadPool.Inv` — the queue, the nodes in the hands of the workers, and the sleepers.
* `thread_pool_exactly_once` — every accepted task runs once, in order.
-/

set_option autoImplicit false

namespace Ticketing

/-- Where a worker is. -/
inductive WorkerPhase where
  /-- Before it locks the mutex. -/
  | ready
  /-- In `pthread_cond_wait(&pool->not_empty, ...)`, not notified. -/
  | sleeping
  /-- Woken up, before it has the mutex again. -/
  | notified
  /-- With a node off the queue, before it runs the task. -/
  | holding (node : Nat)
  /-- The task has been started. -/
  | executing (node : Nat)
  | exited
  deriving DecidableEq, Repr

/-- Where a call of `thread_pool_submit` is. -/
inductive SubmitPhase where
  | entering
  /-- In `pthread_cond_wait(&pool->not_full, ...)`, not notified. -/
  | waiting
  | notified
  | returned (rc : Int)
  deriving DecidableEq, Repr

/-- Where `thread_pool_destroy` is. -/
inductive DestroyPhase where
  | idle
  /-- Before it joins the `i`-th worker. -/
  | joining (i : Nat)
  | joined
  deriving DecidableEq, Repr

/-- The node in a worker's hands. -/
def WorkerPhase.node : WorkerPhase → Option Nat
  | .holding node | .executing node => some node
  | _ => none

/-- `thread_pool_t`, its threads, and what they did so far.  A task is the number of the
`thread_pool_submit` call that brought it. -/
structure ThreadPool where
  queue : LinkedQueue Nat Nat
  queueSize : Int
  maxQueueSize : Int
  shutdown : Bool
  workers : List WorkerPhase
  submits : List SubmitPhase
  destroyer : DestroyPhase
  /-- The calls that returned 0, in order. -/
  accepted : List Nat
  /-- The tasks taken off the queue, in order. -/
  taken : List Nat
  /-- The tasks started, in order. -/
  executed : List Nat

/-- A step of one thread. -/
inductive ThreadPoolAct where
  /-- A new call of `thread_pool_submit`. -/
  | call
  /-- Its critical section, with the result of `malloc` and the worker that the signal wakes. -/
  | submit (k : Nat) (node : Option Nat) (woken : Option Nat)
  /-- A waiting call wakes up by itself. -/
  | wakeSubmit (k : Nat)
  /-- The critical section of a worker, with the call that the signal wakes. -/
  | worker (w : Nat) (woken : Option Nat)
  /-- A sleeping worker wakes up by itself. -/
  | wakeWorker (w : Nat)
  /-- `task->function(task->arg)`. -/
  | execute (w : Nat)
  /-- The function has returned: `free(task)`. -/
  | finish (w : Nat)
  /-- The critical section of `thread_pool_destroy`. -/
  | destroy
  /-- `pthread_join`, or the end of the loop over the workers. -/
  | join

namespace ThreadPool

/-- `thread_pool_create`. -/
def create (numThreads : Nat) (maxQueueSize : Int) : ThreadPool where
  queue := LinkedQueue.empty
  queueSize := 0
  maxQueueSize := maxQueueSize
  shutdown := false
  workers := List.replicate numThreads .ready
  submits := []
  destroyer := .idle
  accepted := []
  taken := []
  executed := []

/-- The critical section of `thread_pool_submit`. -/
def submitSection (s : ThreadPool) (k : Nat) (node woken : Option Nat) : Option ThreadPool :=
  if s.queueSize ≥ s.maxQueueSize ∧ s.shutdown = false then
    some { s with submits := s.submits.set k .waiting }
  else if s.shutdown then some { s with submits := s.submits.set k (.returned (-1)) }
  else
    match node with
    | none => some { s with submits := s.submits.set k (.returned (-1)) }
    | some node =>
      -- `malloc` returns memory that is not in use
      if s.queue.cells node ≠ none then none
      else
        (condSignal .sleeping .notified s.workers woken).map fun workers =>
          { s with
            queue := s.queue.enqueue node k, queueSize := s.queueSize + 1, workers := workers,
            submits := s.submits.set k (.returned 0), accepted := s.accepted ++ [k] }

/-- The critical section of `worker_thread`. -/
def workerSection (s : ThreadPool) (w : Nat) (woken : Option Nat) : Option ThreadPool :=
  if s.queueSize = 0 ∧ s.shutdown = false then
    some { s with workers := s.workers.set w .sleeping }
  else if s.shutdown = true ∧ s.queueSize = 0 then
    some { s with workers := s.workers.set w .exited }
  else
    s.queue.dequeue.bind fun r =>
      (condSignal .waiting .notified s.submits woken).map fun submits =>
        { s with
          queue := r.2, queueSize := s.queueSize - 1, submits := submits,
          workers := s.workers.set w (.holding r.1),
          taken := s.taken ++ ((s.queue.cells r.1).map QueueCell.value).toList }

/-- One step. -/
def step (s : ThreadPool) : ThreadPoolAct → Option ThreadPool
  | .call => some { s with submits := s.submits ++ [.entering] }
  | .submit k node woken =>
    match s.submits[k]? with
    | some .entering | some .notified => s.submitSection k node woken
    | _ => none
  | .wakeSubmit k =>
    (condSignal .waiting .notified s.submits (some k)).map fun submits =>
      { s with submits := submits }
  | .worker w woken =>
    match s.workers[w]? with
    | some .ready | some .notified => s.workerSection w woken
    | _ => none
  | .wakeWorker w =>
    (condSignal .sleeping .notified s.workers (some w)).map fun workers =>
      { s with workers := workers }
  | .execute w =>
    match s.workers[w]? with
    | some (.holding node) =>
      (s.queue.cells node).map fun c =>
        { s with workers := s.workers.set w (.executing node), executed := s.executed ++ [c.value] }
    | _ => none
  | .finish w =>
    match s.workers[w]? with
    | some (.executing node) =>
      some { s with workers := s.workers.set w .ready, queue := s.queue.release node }
    | _ => none
  | .destroy =>
    if s.destroyer = .idle then
      some
        { s with
          shutdown := true, workers := condBroadcast .sleeping .notified s.workers,
          submits := condBroadcast .waiting .notified s.submits, destroyer := .joining 0 }
    else none
  | .join =>
    match s.destroyer with
    | .joining i =>
      match s.workers[i]? with
      | some .exited => some { s with destroyer := .joining (i + 1) }
      | some _ => none
      | none => some { s with destroyer := .joined }
    | _ => none

/-! ## The invariant -/

/-- The worker has the task in hand and has not started it. -/
def holdsTask (cells : Nat → Option (QueueCell Nat Nat)) (task : Nat) : WorkerPhase → Bool
  | .holding node => (cells node).any fun c => c.value == task
  | _ => false

/-- The pool with `n` workers and the tasks `items` in its queue. -/
structure Inv (n : Nat) (max : Int) (items : List (Nat × Nat)) (s : ThreadPool) : Prop where
  numWorkers : s.workers.length = n
  capacity : s.maxQueueSize = max
  holds : s.queue.Holds items
  size : s.queueSize = items.length
  bounded : s.queueSize ≤ s.maxQueueSize
  fifo : s.accepted = s.taken ++ items.map Prod.snd
  accepted_iff : ∀ k : Nat, k ∈ s.accepted ↔ s.submits[k]? = some (.returned 0)
  nodup : s.accepted.Nodup
  inHand : ∀ {w : Nat} {p : WorkerPhase} {node : Nat}, s.workers[w]? = some p →
    p.node = some node → node ∉ items.map Prod.fst ∧ s.queue.cells node ≠ none
  distinct : ∀ {v w : Nat} {p p' : WorkerPhase} {node : Nat}, s.workers[v]? = some p →
    s.workers[w]? = some p' → p.node = some node → p'.node = some node → v = w
  counts : ∀ task, s.taken.count task =
    s.executed.count task + s.workers.countP (holdsTask s.queue.cells task)
  sleepers : .sleeping ∈ s.workers → s.queueSize ≤ s.workers.countP (· == .notified)
  exited : .exited ∈ s.workers → s.shutdown = true ∧ s.queueSize = 0
  joining : ∀ {i : Nat}, s.destroyer = .joining i → ∀ j, j < i → s.workers[j]? = some .exited
  joined : s.destroyer = .joined → ∀ p ∈ s.workers, p = .exited

namespace Inv

variable {n : Nat} {max : Int} {items : List (Nat × Nat)} {s : ThreadPool}

theorem create (n : Nat) (hmax : 0 ≤ max) : Inv n max [] (ThreadPool.create n max) where
  numWorkers := List.length_replicate
  capacity := rfl
  holds := LinkedQueue.holds_empty
  size := rfl
  bounded := hmax
  fifo := rfl
  accepted_iff := by
    intro k
    simp [ThreadPool.create]
  nodup := List.nodup_nil
  inHand := by
    intro w p node hp hnode
    obtain rfl := List.eq_of_mem_replicate (List.mem_of_getElem? hp)
    cases hnode
  distinct := by
    intro v w p p' node hp _ hnode _
    obtain rfl := List.eq_of_mem_replicate (List.mem_of_getElem? hp)
    cases hnode
  counts := by
    intro task
    simp [ThreadPool.create, List.countP_replicate, holdsTask]
  sleepers := by
    intro h
    cases List.eq_of_mem_replicate h
  exited := by
    intro h
    cases List.eq_of_mem_replicate h
  joining := by
    intro i h
    cases h
  joined := by
    intro h
    cases h

/-- Submit calls move; the results so far stay. -/
theorem setSubmits (inv : Inv n max items s) {submits : List SubmitPhase}
    (h : ∀ k : Nat, submits[k]? = some (.returned 0) ↔ s.submits[k]? = some (.returned 0)) :
    Inv n max items { s with submits := submits } :=
  { inv with accepted_iff := fun k => (inv.accepted_iff k).trans (h k).symm }

/-- Workers wake up. -/
theorem wake (inv : Inv n max items s) {workers : List WorkerPhase}
    (h : Woken .sleeping .notified s.workers workers) :
    Inv n max items { s with workers := workers } := by
  have hback : ∀ {w : Nat} {p : WorkerPhase} {node : Nat}, workers[w]? = some p →
      p.node = some node → s.workers[w]? = some p := by
    intro w p node hp hnode
    obtain ⟨q, hq, rfl | ⟨-, rfl⟩⟩ := h.getElem? hp
    · exact hq
    · cases hnode
  have hexited : ∀ {w : Nat}, workers[w]? = some .exited ↔ s.workers[w]? = some .exited :=
    h.getElem?_iff (by decide) (by decide)
  exact
    { inv with
      numWorkers := h.length.trans inv.numWorkers
      inHand := fun hp hnode => inv.inHand (hback hp hnode) hnode
      distinct := fun hp hp' hnode hnode' =>
        inv.distinct (hback hp hnode) (hback hp' hnode') hnode hnode'
      counts := by
        intro task
        rw [inv.counts task]
        exact congrArg _ (h.countP_eq rfl).symm
      sleepers := by
        intro hmem
        have hle := inv.sleepers (h.asleep_mem (by decide) hmem)
        have hmore := h.countP_le (p := (· == .notified)) rfl
        dsimp only
        omega
      exited := by
        intro hmem
        obtain ⟨w, hw⟩ := List.mem_iff_getElem?.mp hmem
        exact inv.exited (List.mem_of_getElem? (hexited.mp hw))
      joining := fun hd j hj => hexited.mpr (inv.joining hd j hj)
      joined := by
        intro hd p hp
        obtain ⟨w, hw⟩ := List.mem_iff_getElem?.mp hp
        obtain ⟨q, hq, rfl | ⟨rfl, -⟩⟩ := h.getElem? hw
        · exact inv.joined hd p (List.mem_of_getElem? hq)
        · cases inv.joined hd _ (List.mem_of_getElem? hq) }

/-- A task is put into the queue: its submit call returns 0. -/
theorem enqueue (inv : Inv n max items s) {k node : Nat} {p : SubmitPhase} {workers : List WorkerPhase}
    {woken : Option Nat} (hk : s.submits[k]? = some p) (hp : p ≠ .returned 0)
    (hroom : s.queueSize < s.maxQueueSize) (hopen : s.shutdown = false)
    (hfresh : s.queue.cells node = none)
    (hsignal : condSignal .sleeping .notified s.workers woken = some workers) :
    Inv n max (items ++ [(node, k)])
      { s with
        queue := s.queue.enqueue node k, queueSize := s.queueSize + 1, workers := workers,
        submits := s.submits.set k (.returned 0), accepted := s.accepted ++ [k] } := by
  have hwoken := woken_condSignal hsignal
  have inv' := inv.wake hwoken
  have hlt := (List.getElem?_eq_some_iff.mp hk).1
  have hcells : ∀ {w : Nat} {q : WorkerPhase} {b : Nat}, workers[w]? = some q →
      q.node = some b → (s.queue.enqueue node k).cells b = s.queue.cells b := by
    intro w q b hq hb
    obtain ⟨hnot, halloc⟩ := inv'.inHand hq hb
    refine LinkedQueue.enqueue_cells k ?_ ?_
    · rintro rfl
      exact halloc hfresh
    · intro htail
      rw [inv.holds.tail] at htail
      obtain ⟨e, he, rfl⟩ := Option.map_eq_some_iff.mp htail
      exact hnot (List.mem_map_of_mem (List.mem_of_getLast? he))
  have hnotin : k ∉ s.accepted := by
    rw [inv.accepted_iff, hk]
    exact fun h => hp (Option.some.inj h)
  exact
    { numWorkers := inv'.numWorkers
      capacity := inv.capacity
      holds := LinkedQueue.holds_enqueue inv.holds hfresh k
      size := by
        have hsize := inv.size
        rw [List.length_append, List.length_singleton]
        push_cast
        omega
      bounded := by
        dsimp only
        omega
      fifo := by
        rw [inv.fifo, List.map_append, List.append_assoc]
        rfl
      accepted_iff := by
        intro j
        rw [List.mem_append, List.mem_singleton, inv.accepted_iff]
        rcases eq_or_ne j k with rfl | hj
        · simp [List.getElem?_set_self hlt]
        · simp [hj, List.getElem?_set_ne (Ne.symm hj)]
      nodup := by
        rw [List.nodup_append]
        refine ⟨inv.nodup, List.nodup_singleton k, fun a ha b hb => ?_⟩
        rw [List.mem_singleton.mp hb]
        rintro rfl
        exact hnotin ha
      inHand := by
        intro w q b hq hb
        obtain ⟨hnot, halloc⟩ := inv'.inHand hq hb
        refine ⟨?_, by rw [hcells hq hb]; exact halloc⟩
        rw [List.map_append, List.mem_append, not_or]
        refine ⟨hnot, fun h => ?_⟩
        rw [List.map_singleton, List.mem_singleton] at h
        subst h
        exact halloc hfresh
      distinct := inv'.distinct
      counts := by
        intro task
        rw [inv'.counts task]
        refine congrArg _ (List.countP_congr fun q hq => ?_)
        obtain ⟨w, hw⟩ := List.mem_iff_getElem?.mp hq
        cases q with
        | holding b => simp only [holdsTask, hcells hw rfl]
        | _ => rfl
      sleepers := by
        intro hmem
        have hle := inv.sleepers (hwoken.asleep_mem (by decide) hmem)
        have hone := countP_condSignal hsignal hmem (p := (· == .notified)) rfl rfl
        dsimp only
        omega
      exited := by
        intro hmem
        have h := (inv'.exited hmem).1
        rw [hopen] at h
        cases h
      joining := inv'.joining
      joined := inv'.joined }

/-- One worker moves, perhaps with a node off the queue or back to the heap. -/
theorem moveWorker (inv : Inv n max items s) {w : Nat} {old new : WorkerPhase}
    {items' : List (Nat × Nat)} {queue : LinkedQueue Nat Nat} {queueSize : Int}
    {taken executed : List Nat} (hw : s.workers[w]? = some old) (hold : old ≠ .exited)
    (hholds : queue.Holds items') (hsize : queueSize = items'.length)
    (hless : queueSize ≤ s.queueSize) (hsub : ∀ b ∈ items'.map Prod.fst, b ∈ items.map Prod.fst)
    (hfifo : s.accepted = taken ++ items'.map Prod.snd)
    (hcells : ∀ {v : Nat} {p : WorkerPhase} {b : Nat}, (s.workers.set w new)[v]? = some p →
      p.node = some b → queue.cells b = s.queue.cells b)
    (hnode : ∀ b, new.node = some b → b ∉ items'.map Prod.fst ∧ s.queue.cells b ≠ none ∧
      (old.node = some b ∨ b ∈ items.map Prod.fst))
    (hcounts : ∀ task, taken.count task + s.executed.count task +
        (holdsTask s.queue.cells task old).toNat =
      s.taken.count task + executed.count task + (holdsTask s.queue.cells task new).toNat)
    (hsleep : new = .sleeping → queueSize = 0)
    (hnotified : queueSize = 0 ∨ queueSize + (old == .notified).toNat ≤ s.queueSize)
    (hexit : new = .exited → s.shutdown = true ∧ queueSize = 0) :
    Inv n max items'
      { s with
        workers := s.workers.set w new, queue := queue, queueSize := queueSize, taken := taken,
        executed := executed } where
  numWorkers := List.length_set.trans inv.numWorkers
  capacity := inv.capacity
  holds := hholds
  size := hsize
  bounded := Int.le_trans hless inv.bounded
  fifo := hfifo
  accepted_iff := inv.accepted_iff
  nodup := inv.nodup
  inHand := by
    intro v p b hv hb
    have hsame := hcells hv hb
    rcases getElem?_set_cases hv with ⟨rfl, rfl⟩ | ⟨-, hv⟩
    · exact ⟨(hnode b hb).1, hsame ▸ (hnode b hb).2.1⟩
    · obtain ⟨hnot, halloc⟩ := inv.inHand hv hb
      exact ⟨fun h => hnot (hsub b h), hsame ▸ halloc⟩
  distinct := by
    have hother : ∀ {v : Nat} {p : WorkerPhase} {b : Nat}, s.workers[v]? = some p →
        p.node = some b → new.node = some b → v = w := by
      intro v p b hv hb hnew
      rcases (hnode b hnew).2.2 with hb' | hb'
      · exact inv.distinct hv hw hb hb'
      · exact absurd hb' (inv.inHand hv hb).1
    intro u v p p' b hu hv hb hb'
    rcases getElem?_set_cases hu with ⟨huw, hp⟩ | ⟨-, hu'⟩ <;>
      rcases getElem?_set_cases hv with ⟨hvw, hp'⟩ | ⟨-, hv'⟩
    · exact huw.trans hvw.symm
    · exact huw.trans (hother hv' hb' (hp ▸ hb)).symm
    · exact (hother hu' hb (hp' ▸ hb')).trans hvw.symm
    · exact inv.distinct hu' hv' hb hb'
  counts := by
    intro task
    have hsame : (s.workers.set w new).countP (holdsTask queue.cells task) =
        (s.workers.set w new).countP (holdsTask s.queue.cells task) := by
      refine List.countP_congr fun q hq => ?_
      obtain ⟨v, hv⟩ := List.mem_iff_getElem?.mp hq
      cases q with
      | holding b => simp only [holdsTask, hcells hv rfl]
      | _ => rfl
    have hset := countP_set_add (holdsTask s.queue.cells task) (b := new) hw
    have hold := inv.counts task
    have hnew := hcounts task
    dsimp only at hsame ⊢
    rw [hsame]
    omega
  sleepers := by
    intro hmem
    have hset := countP_set_add (· == WorkerPhase.notified) (b := new) hw
    rcases List.mem_or_eq_of_mem_set hmem with hmem | heq
    · have hle := inv.sleepers hmem
      dsimp only
      omega
    · rw [hsleep heq.symm]
      exact Int.natCast_nonneg _
  exited := by
    intro hmem
    rcases List.mem_or_eq_of_mem_set hmem with hmem | heq
    · obtain ⟨hshut, hzero⟩ := inv.exited hmem
      dsimp only
      exact ⟨hshut, by omega⟩
    · exact hexit heq.symm
  joining := by
    intro i hi j hj
    have hjx := inv.joining hi j hj
    have hne : w ≠ j := by
      rintro rfl
      rw [hw] at hjx
      exact hold (Option.some.inj hjx)
    exact (List.getElem?_set_ne hne).trans hjx
  joined := by
    intro hd
    exact absurd (inv.joined hd old (List.mem_of_getElem? hw)) hold

/-- The critical section of a submit call. -/
theorem submitSection (inv : Inv n max items s) {k : Nat} {node woken : Option Nat} {p : SubmitPhase}
    {s' : ThreadPool} (hk : s.submits[k]? = some p) (hp : p ≠ .returned 0)
    (h : s.submitSection k node woken = some s') : ∃ items', Inv n max items' s' := by
  have hlt := (List.getElem?_eq_some_iff.mp hk).1
  have hkeep : ∀ {q : SubmitPhase}, q ≠ .returned 0 → ∀ j : Nat,
      (s.submits.set k q)[j]? = some (.returned 0) ↔ s.submits[j]? = some (.returned 0) := by
    intro q hq j
    rcases eq_or_ne j k with rfl | hj
    · simp [List.getElem?_set_self hlt, hk, hp, hq]
    · rw [List.getElem?_set_ne (Ne.symm hj)]
  unfold ThreadPool.submitSection at h
  split at h
  · cases h
    exact ⟨items, inv.setSubmits (hkeep (by decide))⟩
  · rename_i hroom
    split at h
    · cases h
      exact ⟨items, inv.setSubmits (hkeep (by decide))⟩
    · rename_i hopen
      rw [Bool.not_eq_true] at hopen
      split at h
      · cases h
        exact ⟨items, inv.setSubmits (hkeep (by decide))⟩
      · rename_i node
        split at h
        · cases h
        · rename_i hfresh
          obtain ⟨workers, hsignal, rfl⟩ := Option.map_eq_some_iff.mp h
          have hlt : s.queueSize < s.maxQueueSize := by
            by_contra hfull
            exact hroom ⟨Int.not_lt.mp hfull, hopen⟩
          exact ⟨_, inv.enqueue hk hp hlt hopen (not_not.mp hfresh) hsignal⟩

/-- The critical section of a worker. -/
theorem workerSection (inv : Inv n max items s) {w : Nat} {woken : Option Nat} {old : WorkerPhase}
    {s' : ThreadPool} (hw : s.workers[w]? = some old) (hold : old = .ready ∨ old = .notified)
    (h : s.workerSection w woken = some s') : ∃ items', Inv n max items' s' := by
  have hne : old ≠ .exited := by
    rintro rfl
    simp at hold
  have hnothing : ∀ task, holdsTask s.queue.cells task old = false := by
    intro task
    rcases hold with rfl | rfl <;> rfl
  -- to go to sleep or to leave changes nothing but the phase
  have hidle : ∀ {new : WorkerPhase}, new.node = none → s.queueSize = 0 →
      (∀ task, holdsTask s.queue.cells task new = false) → (new = .exited → s.shutdown = true) →
      Inv n max items { s with workers := s.workers.set w new } := by
    intro new hnode hzero hnew hexit
    refine inv.moveWorker hw hne inv.holds inv.size (Int.le_refl _) (fun _ h => h) inv.fifo
      (fun _ _ => rfl) ?_ ?_ (fun _ => hzero) (Or.inl hzero) (fun h => ⟨hexit h, hzero⟩)
    · intro b hb
      rw [hnode] at hb
      cases hb
    · intro task
      rw [hnothing, hnew]
  unfold ThreadPool.workerSection at h
  split at h
  · rename_i hempty
    cases h
    exact ⟨items, hidle rfl hempty.1 (fun _ => rfl) (by simp)⟩
  · split at h
    · rename_i hdone
      cases h
      exact ⟨items, hidle rfl hdone.2 (fun _ => rfl) (fun _ => hdone.1)⟩
    · obtain ⟨⟨node, queue⟩, hdeq, h⟩ := Option.bind_eq_some_iff.mp h
      obtain ⟨submits, hsignal, rfl⟩ := Option.map_eq_some_iff.mp h
      have hwoken := woken_condSignal hsignal
      -- the queue is not empty, or there would be nothing to take off it
      match items, inv with
      | [], inv =>
        rw [LinkedQueue.dequeue, inv.holds.head_eq_none.mpr rfl] at hdeq
        cases hdeq
      | (a, task) :: items, inv =>
        obtain ⟨q, hq, hholds, hcells⟩ := LinkedQueue.holds_dequeue inv.holds
        rw [hdeq] at hq
        cases hq
        obtain ⟨next, hcell⟩ := inv.holds.linked.cell (node, task) List.mem_cons_self
        have hsize := inv.size
        rw [List.length_cons] at hsize
        push_cast at hsize
        have hvalue : ((s.queue.cells node).map QueueCell.value).toList = [task] := by
          rw [hcell]
          rfl
        have hnodup := inv.holds.nodup
        rw [List.map_cons, List.nodup_cons] at hnodup
        have hstep : Inv n max items
            { s with
              workers := s.workers.set w (.holding node), queue := queue,
              queueSize := s.queueSize - 1, taken := s.taken ++ [task], executed := s.executed } := by
          refine inv.moveWorker hw hne hholds (by omega) (by omega)
            (fun b hb => List.mem_cons_of_mem _ hb) (by rw [inv.fifo]; simp)
            (fun _ _ => by rw [hcells]) ?_ ?_ (by simp) ?_ (by simp)
          · intro b hb
            cases hb
            refine ⟨hnodup.1, ?_, Or.inr List.mem_cons_self⟩
            rw [hcell]
            simp
          · intro t
            rw [hnothing, List.count_append, List.count_singleton]
            simp only [holdsTask, hcell, Option.any_some, Bool.toNat_false]
            cases task == t with
            | false => simp
            | true =>
              simp
              omega
          · right
            cases old == WorkerPhase.notified <;>
              simp only [Bool.toNat_false, Bool.toNat_true] <;> omega
        rw [hvalue]
        exact ⟨items, hstep.setSubmits fun k => hwoken.getElem?_iff (by decide) (by decide)⟩

/-- The function of a task is called. -/
theorem execute (inv : Inv n max items s) {w node : Nat} {c : QueueCell Nat Nat}
    (hw : s.workers[w]? = some (.holding node)) (hcell : s.queue.cells node = some c) :
    Inv n max items
      { s with workers := s.workers.set w (.executing node), executed := s.executed ++ [c.value] } := by
  refine inv.moveWorker hw (by simp) inv.holds inv.size (Int.le_refl _) (fun _ h => h) inv.fifo
    (fun _ _ => rfl) ?_ ?_ (by simp) (Or.inr (Int.le_of_eq (Int.add_zero _))) (by simp)
  · intro b hb
    cases hb
    exact ⟨(inv.inHand hw rfl).1, (inv.inHand hw rfl).2, Or.inl rfl⟩
  · intro task
    rw [List.count_append, List.count_singleton]
    simp only [holdsTask, hcell, Option.any_some, Bool.toNat_false]
    cases c.value == task with
    | false => simp
    | true =>
      simp
      omega

/-- The function of a task has returned. -/
theorem finish (inv : Inv n max items s) {w node : Nat}
    (hw : s.workers[w]? = some (.executing node)) :
    Inv n max items
      { s with workers := s.workers.set w .ready, queue := s.queue.release node } := by
  have hlt := (List.getElem?_eq_some_iff.mp hw).1
  refine inv.moveWorker hw (by simp) (LinkedQueue.holds_release inv.holds (inv.inHand hw rfl).1)
    inv.size (Int.le_refl _) (fun _ h => h) inv.fifo ?_ (by simp [WorkerPhase.node]) (fun _ => rfl)
    (by simp) (Or.inr (Int.le_of_eq (Int.add_zero _))) (by simp)
  intro v p b hv hb
  -- no other worker has this node in hand
  rcases getElem?_set_cases hv with ⟨-, rfl⟩ | ⟨hne, hv⟩
  · cases hb
  · refine Function.update_of_ne ?_ ..
    rintro rfl
    exact hne (inv.distinct hv hw hb rfl)

/-- Every step keeps the invariant. -/
theorem step (inv : Inv n max items s) {a : ThreadPoolAct} {s' : ThreadPool}
    (h : s.step a = some s') : ∃ items', Inv n max items' s' := by
  cases a with
  | call =>
    cases h
    refine ⟨items, inv.setSubmits fun k => ⟨fun hk => ?_, fun hk => ?_⟩⟩
    · rcases getElem?_concat_cases hk with hk | ⟨-, hk⟩
      · exact hk
      · cases hk
    · exact (List.getElem?_append_left (List.getElem?_eq_some_iff.mp hk).1).trans hk
  | submit k node woken =>
    simp only [ThreadPool.step] at h
    split at h
    · rename_i hk
      exact inv.submitSection hk (by decide) h
    · rename_i hk
      exact inv.submitSection hk (by decide) h
    · cases h
  | wakeSubmit k =>
    obtain ⟨submits, hsignal, rfl⟩ := Option.map_eq_some_iff.mp h
    exact ⟨items, inv.setSubmits fun j =>
      (woken_condSignal hsignal).getElem?_iff (by decide) (by decide)⟩
  | worker w woken =>
    simp only [ThreadPool.step] at h
    split at h
    · rename_i hw
      exact inv.workerSection hw (Or.inl rfl) h
    · rename_i hw
      exact inv.workerSection hw (Or.inr rfl) h
    · cases h
  | wakeWorker w =>
    obtain ⟨workers, hsignal, rfl⟩ := Option.map_eq_some_iff.mp h
    exact ⟨items, inv.wake (woken_condSignal hsignal)⟩
  | execute w =>
    simp only [ThreadPool.step] at h
    split at h
    · rename_i node hw
      obtain ⟨c, hcell, rfl⟩ := Option.map_eq_some_iff.mp h
      exact ⟨items, inv.execute hw hcell⟩
    · cases h
  | finish w =>
    simp only [ThreadPool.step] at h
    split at h
    · rename_i node hw
      cases h
      exact ⟨items, inv.finish hw⟩
    · cases h
  | destroy =>
    simp only [ThreadPool.step] at h
    split at h
    · cases h
      have hsubmits : Woken SubmitPhase.waiting .notified s.submits _ :=
        woken_condBroadcast s.submits
      have inv' := (inv.wake (woken_condBroadcast s.workers)).setSubmits fun k =>
        hsubmits.getElem?_iff (t := .returned 0) (by decide) (by decide)
      refine ⟨items,
        { inv' with
          exited := fun hmem => ⟨rfl, (inv'.exited hmem).2⟩
          joining := ?_
          joined := ?_ }⟩
      · intro i hi j hj
        cases hi
        exact absurd hj (Nat.not_lt_zero j)
      · intro hd
        cases hd
    · cases h
  | join =>
    simp only [ThreadPool.step] at h
    split at h
    · rename_i i hi
      split at h
      · rename_i hexit
        cases h
        refine ⟨items, { inv with joining := ?_, joined := ?_ }⟩
        · intro j hj k hk
          cases hj
          rcases Nat.lt_succ_iff_lt_or_eq.mp hk with hk | rfl
          · exact inv.joining hi k hk
          · exact hexit
        · intro hd
          cases hd
      · cases h
      · rename_i hend
        cases h
        refine ⟨items, { inv with joining := ?_, joined := ?_ }⟩
        · intro j hj
          cases hj
        · intro _ p hp
          obtain ⟨j, hj⟩ := List.mem_iff_getElem?.mp hp
          have hlt : j < s.workers.length := (List.getElem?_eq_some_iff.mp hj).1
          have hge := List.getElem?_eq_none_iff.mp hend
          have hexit := inv.joining hi j (by omega)
          rw [hj] at hexit
          exact Option.some.inj hexit
    · cases h

/-- Once a worker has left, nothing is queued; once all have left, nothing is in hand. -/
theorem drained (inv : Inv n max items s) (hn : 0 < n) (hjoined : s.destroyer = .joined)
    (task : Nat) : s.accepted = s.taken ∧ s.taken.count task = s.executed.count task := by
  have hlen := inv.numWorkers
  have hexited : .exited ∈ s.workers := by
    match hws : s.workers, hlen with
    | [], hlen =>
      rw [List.length_nil] at hlen
      omega
    | p :: ps, _ =>
      have hp := inv.joined hjoined p (by rw [hws]; exact List.mem_cons_self)
      rw [hp]
      exact List.mem_cons_self
  have hempty : items = [] := by
    have hsize := inv.size
    rw [(inv.exited hexited).2] at hsize
    exact List.length_eq_zero_iff.mp (by omega)
  have hnone : s.workers.countP (holdsTask s.queue.cells task) = 0 := by
    rw [List.countP_eq_zero]
    intro p hp
    rw [inv.joined hjoined p hp]
    exact Bool.false_ne_true
  have hfifo := inv.fifo
  rw [hempty, List.map_nil, List.append_nil] at hfifo
  have hcount := inv.counts task
  rw [hnone] at hcount
  exact ⟨hfifo, hcount⟩

end Inv

end ThreadPool

/-- **Every accepted task runs once, in order.**  In every state that a pool of `n` workers reaches:
the linked queue has as many nodes as `queue_size` says, which is at most the capacity, and its tail
pointer is right; tasks are taken off in the order in which they were accepted; a task is accepted
exactly when its submit call returns 0; no task is run twice, none that was refused is run, and when
the workers are joined every accepted one has been run; and while a worker sleeps, a worker is
notified for each queued task. -/
theorem thread_pool_exactly_once {n : Nat} {max : Int} (hn : 0 < n) (hmax : 1 ≤ max)
    {s : ThreadPool}
    (h : Reachable ThreadPool.step (fun _ _ => True) (ThreadPool.create n max) s) :
    (∃ items, s.queue.Holds items ∧ s.queueSize = items.length ∧ s.queueSize ≤ max ∧
      s.queue.tail = items.getLast?.map Prod.fst ∧ (s.queue.tail = none ↔ items = []) ∧
      s.accepted = s.taken ++ items.map Prod.snd) ∧
    (s.accepted.Nodup ∧ ∀ k : Nat, k ∈ s.accepted ↔ s.submits[k]? = some (.returned 0)) ∧
    (∀ k, s.executed.count k ≤ 1) ∧
    (∀ k : Nat, s.submits[k]? = some (.returned (-1)) → k ∉ s.executed) ∧
    (s.destroyer = .joined →
      ∀ k : Nat, s.submits[k]? = some (.returned 0) → s.executed.count k = 1) ∧
    (.sleeping ∈ s.workers → s.queueSize ≤ s.workers.countP (· == .notified)) := by
  obtain ⟨items, inv⟩ : ∃ items, ThreadPool.Inv n max items s :=
    h.invariant (I := fun s => ∃ items, ThreadPool.Inv n max items s)
      ⟨[], ThreadPool.Inv.create n (by omega)⟩ fun _ _ _ ⟨_, inv⟩ _ hstep => inv.step hstep
  have htaken : ∀ k, s.executed.count k ≤ s.accepted.count k := by
    intro k
    have hcount := inv.counts k
    rw [inv.fifo, List.count_append]
    omega
  refine ⟨⟨items, inv.holds, inv.size, inv.capacity ▸ inv.bounded, inv.holds.tail,
    inv.holds.tail_eq_none, inv.fifo⟩, ⟨inv.nodup, inv.accepted_iff⟩, ?_, ?_, ?_, inv.sleepers⟩
  · intro k
    exact Nat.le_trans (htaken k) (List.nodup_iff_count_le_one.mp inv.nodup k)
  · intro k hk hmem
    have hpos : 0 < s.accepted.count k := Nat.lt_of_lt_of_le (List.count_pos_iff.mpr hmem) (htaken k)
    have hret := (inv.accepted_iff k).mp (List.count_pos_iff.mp hpos)
    rw [hk] at hret
    cases hret
  · intro hjoined k hk
    obtain ⟨htake, hcount⟩ := inv.drained hn hjoined k
    rw [← hcount, ← htake]
    exact List.count_eq_one_of_mem inv.nodup ((inv.accepted_iff k).mpr hk)

/-- Two workers and three submit calls: the second worker sleeps when the shutdown comes, and the
third call comes too late. -/
theorem thread_pool_exactly_once_shutdown : ∃ s,
    Reachable ThreadPool.step (fun _ _ => True) (ThreadPool.create 2 1) s ∧
      s.destroyer = .joined ∧ s.executed.count 0 = 1 ∧ s.executed.count 1 = 1 ∧ 2 ∉ s.executed := by
  have hrun : (runSteps ThreadPool.step (fun _ _ => true) (ThreadPool.create 2 1)
      [.worker 0 none, .worker 1 none, .call, .call, .call, .submit 0 (some 8) (some 0),
        .submit 1 none none, .worker 0 (some 1), .execute 0, .submit 1 (some 9) (some 1), .destroy,
        .submit 2 (some 7) none, .finish 0, .worker 0 none, .execute 0, .worker 1 none, .finish 0,
        .worker 0 none, .join, .join, .join]).any
      (fun s => s.destroyer == .joined &&
        s.submits == [.returned 0, .returned 0, .returned (-1)]) = true := by
    decide +kernel
  obtain ⟨s, hs, hcheck⟩ := (Option.any_eq_true _ _).mp hrun
  rw [Bool.and_eq_true, beq_iff_eq, beq_iff_eq] at hcheck
  have hreach := Reachable.of_runSteps (fun _ _ _ => trivial) hs
  obtain ⟨-, -, -, hrefused, hall, -⟩ := thread_pool_exactly_once (by decide) (by decide) hreach
  refine ⟨s, hreach, hcheck.1, hall hcheck.1 0 ?_, hall hcheck.1 1 ?_, hrefused 2 ?_⟩ <;>
    rw [hcheck.2] <;> rfl

end Ticketing
