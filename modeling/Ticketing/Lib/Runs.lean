import Mathlib.Logic.Function.Basic

/-!
# Runs of a system

* `runOps`, `runOps_refines` — a run of operations on a state, and the rule that carries a
  simulation of one operation to whole runs; `runOps_refines_upto` where the simulation wears out.
* `tryOps`, `tryOps_of_ok` — a run of operations that may fail, and the rule for one that does not.
* `foldlM_invariant` — the rule for a list of steps each of which may fail.
* `Reachable`, `Reachable.invariant` — the states a labelled system can reach by steps that meet a
  condition, and the rule for invariants.
* `runSteps` — the state after a list of labels, checked on the way.
* `History`, `History.invariant` — the steps of a run, the latest first, and the rule for properties
  of a state together with the steps that led to it; `History.cut` for a file that the steps make longer.
* `Lockstep`, `Lockstep.reachable` — two systems that move alike, and the rule for their runs.
-/

set_option autoImplicit false

section Operations

variable {σ τ Op Out : Type}

/-- The outputs of a run and its final state. -/
def runOps (step : σ → Op → Out × σ) : σ → List Op → List Out × σ
  | s, [] => ([], s)
  | s, op :: ops =>
    ((step s op).1 :: (runOps step (step s op).2 ops).1, (runOps step (step s op).2 ops).2)

/-- One run after another. -/
theorem runOps_append (step : σ → Op → Out × σ) (s : σ) (ops ops' : List Op) :
    runOps step s (ops ++ ops') =
      ((runOps step s ops).1 ++ (runOps step (runOps step s ops).2 ops').1,
        (runOps step (runOps step s ops).2 ops').2) := by
  induction ops generalizing s with
  | nil => rfl
  | cons o ops ih =>
    simp only [List.cons_append, runOps, ih]

/-- One more operation at the end. -/
theorem runOps_concat (step : σ → Op → Out × σ) (s : σ) (ops : List Op) (op : Op) :
    runOps step s (ops ++ [op]) =
      ((runOps step s ops).1 ++ [(step (runOps step s ops).2 op).1],
        (step (runOps step s ops).2 op).2) := by
  rw [runOps_append]
  rfl

/-- Every operation of the run is admissible in the state it is called in. -/
def OpsOk (step : σ → Op → Out × σ) (ok : σ → Op → Prop) : σ → List Op → Prop
  | _, [] => True
  | s, op :: ops => ok s op ∧ OpsOk step ok (step s op).2 ops

instance OpsOk.decidable {step : σ → Op → Out × σ} {ok : σ → Op → Prop} [∀ s op, Decidable (ok s op)] :
    ∀ (s : σ) (ops : List Op), Decidable (OpsOk step ok s ops)
  | _, [] => isTrue trivial
  | s, op :: ops =>
    haveI : Decidable (OpsOk step ok (step s op).2 ops) := OpsOk.decidable (step s op).2 ops
    inferInstanceAs (Decidable (ok s op ∧ OpsOk step ok (step s op).2 ops))

theorem OpsOk.mono {step : σ → Op → Out × σ} {ok ok' : σ → Op → Prop} (h : ∀ s op, ok s op → ok' s op)
    {ops : List Op} : ∀ {s : σ}, OpsOk step ok s ops → OpsOk step ok' s ops := by
  induction ops with
  | nil => exact fun _ => trivial
  | cons op ops ih => exact fun hok => ⟨h _ op hok.1, ih hok.2⟩

/-- One more operation that is admissible where the run ends. -/
theorem OpsOk.concat {step : σ → Op → Out × σ} {ok : σ → Op → Prop} {ops : List Op} {op : Op} :
    ∀ {s : σ}, OpsOk step ok s ops → ok (runOps step s ops).2 op → OpsOk step ok s (ops ++ [op]) := by
  induction ops with
  | nil => exact fun _ hop => ⟨hop, trivial⟩
  | cons o ops ih => exact fun hok hop => ⟨hok.1, ih hok.2 hop⟩

/-- **Refinement of runs** by a relation that is good for so many more operations: if one admissible
operation answers alike and uses up one of them, a run of as many answers alike. -/
theorem runOps_refines_upto {step : σ → Op → Out × σ} {spec : τ → Op → Out × τ} (R : Nat → σ → τ → Prop)
    (ok : τ → Op → Prop)
    (hstep : ∀ k s t op, R (k + 1) s t → ok t op →
      (step s op).1 = (spec t op).1 ∧ R k (step s op).2 (spec t op).2) (ops : List Op) :
    ∀ {s : σ} {t : τ} {k : Nat}, R (ops.length + k) s t → OpsOk spec ok t ops →
      (runOps step s ops).1 = (runOps spec t ops).1 ∧
        R k (runOps step s ops).2 (runOps spec t ops).2 := by
  induction ops with
  | nil =>
    intro s t k h _
    rw [List.length_nil, Nat.zero_add] at h
    exact ⟨rfl, h⟩
  | cons op ops ih =>
    intro s t k h hok
    rw [List.length_cons, Nat.add_right_comm] at h
    obtain ⟨hout, hR⟩ := hstep _ s t op h hok.1
    obtain ⟨houts, hfin⟩ := ih hR hok.2
    exact ⟨by rw [runOps, runOps, hout, houts], hfin⟩

/-- **Refinement of runs.**  If one admissible operation answers alike and keeps the relation, so
does every run of admissible operations. -/
theorem runOps_refines {step : σ → Op → Out × σ} {spec : τ → Op → Out × τ} (R : σ → τ → Prop)
    (ok : τ → Op → Prop)
    (hstep : ∀ s t op, R s t → ok t op →
      (step s op).1 = (spec t op).1 ∧ R (step s op).2 (spec t op).2) (ops : List Op)
    {s : σ} {t : τ} (h : R s t) (hok : OpsOk spec ok t ops) :
    (runOps step s ops).1 = (runOps spec t ops).1 ∧ R (runOps step s ops).2 (runOps spec t ops).2 :=
  runOps_refines_upto (fun _ => R) ok (fun _ => hstep) ops (k := 0) h hok

theorem opsOk_true {step : σ → Op → Out × σ} (ops : List Op) :
    ∀ s : σ, OpsOk step (fun _ _ => True) s ops := by
  induction ops with
  | nil => intro s; trivial
  | cons op ops ih => intro s; exact ⟨trivial, ih _⟩

/-- The outputs of a run of operations that may fail, and its final state; or the first failure. -/
def tryOps {ε : Type} (step : σ → Op → Except ε (Out × σ)) : σ → List Op → Except ε (List Out × σ)
  | s, [] => .ok ([], s)
  | s, op :: ops =>
    match step s op with
    | .error e => .error e
    | .ok r => (tryOps step r.2 ops).map fun rest => (r.1 :: rest.1, rest.2)

/-- **A run without failures**: if in states with the invariant a step does not fail, but does what `total`
does, and keeps the invariant, then so it is with runs. -/
theorem tryOps_of_ok {ε : Type} {step : σ → Op → Except ε (Out × σ)} {total : σ → Op → Out × σ} (I : σ → Prop)
    (hstep : ∀ s op, I s → step s op = .ok (total s op) ∧ I (total s op).2) (ops : List Op) :
    ∀ {s : σ}, I s → tryOps step s ops = .ok (runOps total s ops) := by
  induction ops with
  | nil => exact fun _ => rfl
  | cons op ops ih =>
    intro s hs
    obtain ⟨hok, hkept⟩ := hstep s op hs
    rw [tryOps, hok, runOps]
    simp only [ih hkept]
    rfl

/-- One more operation, at the end of a run without failures. -/
theorem tryOps_concat {ε : Type} {step : σ → Op → Except ε (Out × σ)} {ops : List Op} {op : Op} :
    ∀ {s s' : σ} {outs : List Out}, tryOps step s ops = .ok (outs, s') →
      tryOps step s (ops ++ [op]) = (step s' op).map fun r => (outs ++ [r.1], r.2) := by
  induction ops with
  | nil =>
    intro s s' outs h
    cases h
    rw [List.nil_append, tryOps]
    cases step s op <;> rfl
  | cons o ops ih =>
    intro s s' outs h
    rw [tryOps] at h
    rw [List.cons_append, tryOps]
    cases hfirst : step s o with
    | error e =>
      rw [hfirst] at h
      cases h
    | ok r =>
      simp only [hfirst] at h ⊢
      cases hrest : tryOps step r.2 ops with
      | error e =>
        rw [hrest] at h
        cases h
      | ok rest =>
        rw [hrest] at h
        cases h
        rw [ih hrest]
        cases step rest.2 op <;> rfl

/-- **A list of steps, each of which may fail**: what every step carries from the list done so far to one
element more, the run carries over the whole list. -/
theorem foldlM_invariant {f : σ → Op → Option σ} {ops : List Op} (I : List Op → σ → Prop)
    (hstep : ∀ front op post s, ops = front ++ op :: post → I front s →
      ∃ s', f s op = some s' ∧ I (front ++ [op]) s') {s : σ} (hinit : I [] s) :
    ∃ s', ops.foldlM f s = some s' ∧ I ops s' := by
  have hrun : ∀ post front s, ops = front ++ post → I front s →
      ∃ s', post.foldlM f s = some s' ∧ I ops s' := by
    intro post
    induction post with
    | nil =>
      intro front s hops hI
      rw [List.append_nil] at hops
      subst hops
      exact ⟨s, rfl, hI⟩
    | cons op post ih =>
      intro front s hops hI
      obtain ⟨s₁, hs₁, hI₁⟩ := hstep front op post s hops hI
      obtain ⟨s', hs', hI'⟩ := ih (front ++ [op]) s₁ (by rw [hops, List.append_assoc, List.singleton_append]) hI₁
      refine ⟨s', ?_, hI'⟩
      rw [List.foldlM_cons, hs₁]
      exact hs'
  exact hrun ops [] s rfl hinit

end Operations

section Reachability

variable {σ A : Type}

/-- The states reached from `s₀` by steps that meet the condition `ok`. -/
inductive Reachable (step : σ → A → Option σ) (ok : σ → A → Prop) (s₀ : σ) : σ → Prop where
  | refl : Reachable step ok s₀ s₀
  | tail {s s' : σ} (a : A) : Reachable step ok s₀ s → ok s a → step s a = some s' →
      Reachable step ok s₀ s'

variable {step : σ → A → Option σ} {ok : σ → A → Prop} {s₀ : σ}

/-- **Invariants**: true at first and kept by every step, hence true of every reachable state. -/
theorem Reachable.invariant {I : σ → Prop} (hinit : I s₀)
    (hstep : ∀ s a s', I s → ok s a → step s a = some s' → I s') {s : σ}
    (h : Reachable step ok s₀ s) : I s := by
  induction h with
  | refl => exact hinit
  | tail a _ hok hs ih => exact hstep _ a _ ih hok hs

theorem Reachable.trans {s t : σ} (h : Reachable step ok s₀ s) (h' : Reachable step ok s t) :
    Reachable step ok s₀ t := by
  induction h' with
  | refl => exact h
  | tail a _ hok hs ih => exact .tail a ih hok hs

/-- A weaker condition reaches more. -/
theorem Reachable.mono {ok' : σ → A → Prop} (hok : ∀ s a, ok s a → ok' s a) {s : σ}
    (h : Reachable step ok s₀ s) : Reachable step ok' s₀ s := by
  induction h with
  | refl => exact .refl
  | tail a _ ha hs ih => exact .tail a ih (hok _ _ ha) hs

/-- The steps of one system as steps of a larger one. -/
theorem Reachable.relabel {B : Type} {step' : σ → B → Option σ} {ok' : σ → B → Prop} (f : A → B)
    (hok : ∀ s a, ok s a → ok' s (f a)) (hstep : ∀ s a s', step s a = some s' → step' s (f a) = some s') {s : σ}
    (h : Reachable step ok s₀ s) : Reachable step' ok' s₀ s := by
  induction h with
  | refl => exact .refl
  | tail a _ ha hs ih => exact .tail (f a) ih (hok _ a ha) (hstep _ a _ hs)

/-- The state after a list of labels, each of which has to pass the check `ok`. -/
def runSteps (step : σ → A → Option σ) (ok : σ → A → Bool) : σ → List A → Option σ
  | s, [] => some s
  | s, a :: as => if ok s a then (step s a).bind (fun s' => runSteps step ok s' as) else none

/-- A checked run that keeps an invariant reaches its last state. -/
theorem Reachable.of_runSteps_inv {check : σ → A → Bool} (I : σ → Prop)
    (hI : ∀ s a s', I s → check s a = true → step s a = some s' → I s')
    (hok : ∀ s a, I s → check s a = true → ok s a) {as : List A} {s s' : σ} (hs : I s)
    (h : runSteps step check s as = some s') : Reachable step ok s s' ∧ I s' := by
  induction as generalizing s with
  | nil =>
    cases h
    exact ⟨.refl, hs⟩
  | cons a as ih =>
    simp only [runSteps] at h
    split at h
    · rename_i ha
      obtain ⟨t, ht, hrest⟩ := Option.bind_eq_some_iff.mp h
      obtain ⟨hreach, hI'⟩ := ih (hI s a t hs ha ht) hrest
      exact ⟨(Reachable.tail a .refl (hok s a hs ha) ht).trans hreach, hI'⟩
    · cases h

/-- A checked run reaches its last state. -/
theorem Reachable.of_runSteps {check : σ → A → Bool} (hok : ∀ s a, check s a = true → ok s a)
    {as : List A} {s s' : σ} (h : runSteps step check s as = some s') : Reachable step ok s s' :=
  (Reachable.of_runSteps_inv (fun _ => True) (fun _ _ _ _ _ _ => trivial)
    (fun s a _ ha => hok s a ha) trivial h).1

/-- A run whose labels meet a condition of their own reaches its last state. -/
theorem Reachable.of_labels {p : A → Prop} {as : List A} {s s' : σ} (hall : ∀ a ∈ as, p a)
    (h : runSteps step (fun _ _ => true) s as = some s') : Reachable step (fun _ a => p a) s s' := by
  induction as generalizing s with
  | nil =>
    cases h
    exact .refl
  | cons a as ih =>
    obtain ⟨t, ht, hrest⟩ := Option.bind_eq_some_iff.mp h
    exact (Reachable.tail a .refl (hall a List.mem_cons_self) ht).trans
      (ih (fun b hb => hall b (List.mem_cons_of_mem _ hb)) hrest)

/-- One step of a run. -/
structure Transition (σ A : Type) where
  before : σ
  act : A
  after : σ

/-- The runs from `s₀`, with their steps, the latest first. -/
inductive History (step : σ → A → Option σ) (s₀ : σ) : List (Transition σ A) → σ → Prop where
  | nil : History step s₀ [] s₀
  | cons {tr : List (Transition σ A)} {s s' : σ} (a : A) : History step s₀ tr s →
      step s a = some s' → History step s₀ (⟨s, a, s'⟩ :: tr) s'

/-- **Properties of histories**: true at first and kept by every step. -/
theorem History.invariant {I : List (Transition σ A) → σ → Prop} (hinit : I [] s₀)
    (hstep : ∀ tr s a s', I tr s → step s a = some s' → I (⟨s, a, s'⟩ :: tr) s')
    {tr : List (Transition σ A)} {s : σ} (h : History step s₀ tr s) : I tr s := by
  induction h with
  | nil => exact hinit
  | cons a _ hs ih => exact hstep _ _ a _ ih hs

/-- The earlier part of a history. -/
theorem History.earlier {later tr : List (Transition σ A)} {s : σ} (h : History step s₀ (later ++ tr) s) :
    ∃ s₁, History step s₀ tr s₁ := by
  induction later generalizing s with
  | nil => exact ⟨s, h⟩
  | cons t later ih =>
    obtain _ | ⟨_, h, _⟩ := h
    exact ih h

/-- The steps to a reachable state. -/
theorem Reachable.history {s : σ} (h : Reachable step ok s₀ s) :
    ∃ tr, History step s₀ tr s ∧ ∀ t ∈ tr, ok t.before t.act := by
  induction h with
  | refl => exact ⟨[], .nil, fun t ht => absurd ht List.not_mem_nil⟩
  | tail a _ ha hs ih =>
    obtain ⟨tr, hist, hok⟩ := ih
    exact ⟨_, hist.cons a hs, List.forall_mem_cons.mpr ⟨ha, hok⟩⟩

/-- **A file that grows along a history**, cut after `k` entries.  If no step changes what the cut file gives as
long as the cut is inside of it, then it gives what the whole file gave after the last step that the cut does not
reach. -/
theorem History.cut {β δ : Type} (file : σ → List β) (read : List β → δ) {k : Nat} {ok : σ → A → Prop}
    {I : σ → Prop} (hinit : I s₀) (hshort : (file s₀).length ≤ k)
    (hstep : ∀ s a s', I s → ok s a → step s a = some s' →
      I s' ∧ (k < (file s').length → read ((file s').take k) = read ((file s).take k)))
    {tr : List (Transition σ A)} {s : σ} (h : History step s₀ tr s) (hok : ∀ t ∈ tr, ok t.before t.act) :
    I s ∧ ∃ later tr₀ s₁, tr = later ++ tr₀ ∧ History step s₀ tr₀ s₁ ∧ I s₁ ∧ (file s₁).length ≤ k ∧
      (∀ t ∈ later, k < (file t.after).length) ∧ read ((file s).take k) = read (file s₁) := by
  induction h with
  | nil =>
    refine ⟨hinit, [], [], s₀, rfl, .nil, hinit, hshort, fun t ht => absurd ht List.not_mem_nil, ?_⟩
    rw [List.take_of_length_le hshort]
  | @cons tr s s' a hist hs ih =>
    rw [List.forall_mem_cons] at hok
    obtain ⟨hI, later, tr₀, s₁, htr, hist₁, hI₁, hlow, hhigh, hread⟩ := ih hok.2
    obtain ⟨hI', hsame⟩ := hstep s a s' hI hok.1 hs
    rcases Nat.lt_or_ge k (file s').length with hcut | hwhole
    · exact ⟨hI', ⟨s, a, s'⟩ :: later, tr₀, s₁, by rw [htr, List.cons_append], hist₁, hI₁, hlow,
        List.forall_mem_cons.mpr ⟨hcut, hhigh⟩, (hsame hcut).trans hread⟩
    · refine ⟨hI', [], ⟨s, a, s'⟩ :: tr, s', rfl, hist.cons a hs, hI', hwhole,
        fun t ht => absurd ht List.not_mem_nil, ?_⟩
      rw [List.take_of_length_le hwhole]

/-- The history of a list of labels, after the steps `tr`. -/
def runHistory (step : σ → A → Option σ) (tr : List (Transition σ A)) : σ → List A →
    Option (List (Transition σ A) × σ)
  | s, [] => some (tr, s)
  | s, a :: as => (step s a).bind (fun s' => runHistory step (⟨s, a, s'⟩ :: tr) s' as)

theorem History.of_runHistory {as : List A} {tr tr' : List (Transition σ A)} {s s' : σ}
    (h : History step s₀ tr s) (hrun : runHistory step tr s as = some (tr', s')) :
    History step s₀ tr' s' := by
  induction as generalizing tr s with
  | nil =>
    cases hrun
    exact h
  | cons a as ih =>
    obtain ⟨t, ht, hrest⟩ := Option.bind_eq_some_iff.mp hrun
    exact ih (h.cons a ht) hrest

/-- The labels of a history, the latest first. -/
theorem runHistory_acts {as : List A} {tr tr' : List (Transition σ A)} {s s' : σ}
    (h : runHistory step tr s as = some (tr', s')) :
    tr'.map Transition.act = as.reverse ++ tr.map Transition.act := by
  induction as generalizing tr s with
  | nil =>
    cases h
    rfl
  | cons a as ih =>
    obtain ⟨t, -, hrest⟩ := Option.bind_eq_some_iff.mp h
    rw [ih hrest, List.map_cons, List.reverse_cons, List.append_assoc, List.singleton_append]

/-- Every transition of a run is a step. -/
theorem History.step_of_mem {tr : List (Transition σ A)} {s : σ} (h : History step s₀ tr s)
    {t : Transition σ A} (ht : t ∈ tr) : step t.before t.act = some t.after := by
  induction h with
  | nil => cases ht
  | cons a _ hs ih =>
    rcases List.mem_cons.mp ht with rfl | ht
    · exact hs
    · exact ih ht

end Reachability

section Simulation

variable {σ τ A B α β γ δ : Type}

/-- What is done to both of two related options. -/
theorem rel_map {R : α → β → Prop} {S : γ → δ → Prop} {f : α → γ} {g : β → δ} {x : Option α} {y : Option β}
    (h : Option.Rel R x y) (hfg : ∀ a b, R a b → S (f a) (g b)) : Option.Rel S (x.map f) (y.map g) := by
  cases h with
  | some hab => exact .some (hfg _ _ hab)
  | none => exact .none

theorem rel_imp {R S : α → β → Prop} {x : Option α} {y : Option β} (h : Option.Rel R x y)
    (hRS : ∀ a b, R a b → S a b) : Option.Rel S x y := by
  cases h with
  | some hab => exact .some (hRS _ _ hab)
  | none => exact .none

/-- From related states corresponding steps lead to related states, or both have to wait. -/
def Lockstep (step : σ → A → Option σ) (step' : τ → B → Option τ) (f : A → B) (ok : σ → A → Prop)
    (R : σ → τ → Prop) : Prop :=
  ∀ s t a, R s t → ok s a → Option.Rel R (step s a) (step' t (f a))

/-- **Runs in lockstep**: what one system reaches, the other reaches by the corresponding steps. -/
theorem Lockstep.reachable {step : σ → A → Option σ} {step' : τ → B → Option τ} {f : A → B}
    {ok : σ → A → Prop} {R : σ → τ → Prop} (hlock : Lockstep step step' f ok R) {ok' : τ → B → Prop}
    (hok : ∀ s t a, R s t → ok s a → ok' t (f a)) {s₀ : σ} {t₀ : τ} (hinit : R s₀ t₀) {s : σ}
    (h : Reachable step ok s₀ s) : ∃ t, Reachable step' ok' t₀ t ∧ R s t := by
  induction h with
  | refl => exact ⟨t₀, .refl, hinit⟩
  | @tail s s' a _ ha hs ih =>
    obtain ⟨t, hreach, hR⟩ := ih
    have hrel := hlock s t a hR ha
    rw [hs] at hrel
    cases ht : step' t (f a) with
    | none =>
      rw [ht] at hrel
      cases hrel
    | some t' =>
      rw [ht] at hrel
      exact ⟨t', hreach.tail (f a) (hok s t a hR ha) ht, Option.rel_some_some.mp hrel⟩

/-- **Checked runs**: a relation that is good for so many more steps carries a run of as many steps over. -/
theorem Reachable.of_related_run {step : σ → A → Option σ} {step' : τ → B → Option τ} {f : A → B}
    {ok : σ → A → Prop} {check : τ → B → Bool} {p : A → Prop} (R : Nat → σ → τ → Prop)
    (hstep : ∀ k s t a, R (k + 1) s t → p a → check t (f a) = true →
      ok s a ∧ Option.Rel (R k) (step s a) (step' t (f a))) {as : List A} (hp : ∀ a ∈ as, p a) :
    ∀ {s : σ} {t t' : τ}, R as.length s t → runSteps step' check t (as.map f) = some t' →
      ∃ s', Reachable step ok s s' ∧ R 0 s' t' := by
  induction as with
  | nil =>
    intro s t t' hR hrun
    cases hrun
    exact ⟨s, .refl, hR⟩
  | cons a as ih =>
    intro s t t' hR hrun
    simp only [List.map_cons, runSteps] at hrun
    split at hrun
    · rename_i hcheck
      obtain ⟨t₁, ht₁, hrest⟩ := Option.bind_eq_some_iff.mp hrun
      obtain ⟨hok, hrel⟩ := hstep _ s t a hR (hp a List.mem_cons_self) hcheck
      rw [ht₁] at hrel
      cases hs : step s a with
      | none =>
        rw [hs] at hrel
        cases hrel
      | some s₁ =>
        rw [hs] at hrel
        obtain ⟨s', hreach, hR'⟩ :=
          ih (fun b hb => hp b (List.mem_cons_of_mem _ hb)) (Option.rel_some_some.mp hrel) hrest
        exact ⟨s', (Reachable.tail a .refl hok hs).trans hreach, hR'⟩
    · cases hrun

end Simulation
