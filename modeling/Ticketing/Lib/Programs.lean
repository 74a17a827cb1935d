import Mathlib.Data.List.Basic

/-!
# Programs on a state that can fail

* `Prog` — programs with the steps they take, their monad, `Prog.act` (one step), `Prog.reads` (a look at
  the state), `Prog.lift` (a computation that does not use the state), `Prog.fold` (a loop over a list).
* `Prog.Meets` — from every state with the precondition the program does not fail, and ends with the
  postcondition; one rule for each way to build a program.
* `Prog.Ensures` — the same where the program may fail.
* `Prog.Along` — what holds in every state in which the program takes a step, and at the end; the same
  rules.
-/

set_option autoImplicit false

/-- A program over states `σ` with steps `ℓ`, failures `ε` and results `α`: how it ends, and which steps it
takes in which states, one after another.  Programs that take commuting steps in another order end alike,
but they are not the same program. -/
structure Prog (ℓ σ ε α : Type) where
  run : σ → Except ε (α × σ)
  moments : σ → List (ℓ × σ)

namespace Prog

variable {ℓ σ τ ε α β γ δ : Type}

instance : CoeFun (Prog ℓ σ ε α) fun _ => σ → Except ε (α × σ) := ⟨Prog.run⟩

instance : Monad (Prog ℓ σ ε) where
  pure a := ⟨fun s => .ok (a, s), fun _ => []⟩
  bind p f :=
    { run := fun s =>
        match p.run s with
        | .error e => .error e
        | .ok r => (f r.1).run r.2
      moments := fun s => p.moments s ++
        match p.run s with
        | .error _ => []
        | .ok r => (f r.1).moments r.2 }

/-- One step. -/
def act (l : ℓ) (f : σ → α × σ) : Prog ℓ σ ε α := ⟨fun s => .ok (f s), fun s => [(l, s)]⟩

/-- A look at the state. -/
def reads (f : σ → α) : Prog ℓ σ ε α := ⟨fun s => .ok (f s, s), fun _ => []⟩

/-- A computation beside the state. -/
def lift (r : Except ε α) : Prog ℓ σ ε α := ⟨fun s => r.map fun a => (a, s), fun _ => []⟩

/-- A loop over a list. -/
def fold (f : β → α → Prog ℓ σ ε β) : β → List α → Prog ℓ σ ε β
  | b, [] => pure b
  | b, x :: xs => do
    let b ← f b x
    fold f b xs

theorem bind_ok {p : Prog ℓ σ ε α} {f : α → Prog ℓ σ ε β} {s s' : σ} {b : β}
    (h : (p >>= f) s = .ok (b, s')) : ∃ a s₁, p s = .ok (a, s₁) ∧ f a s₁ = .ok (b, s') := by
  simp only [Bind.bind] at h
  split at h
  · cases h
  · rename_i r hr
    exact ⟨r.1, r.2, hr, h⟩

/-- A program that takes no step, followed by one that takes none. -/
theorem bind_quiet {p : Prog ℓ σ ε α} {f : α → Prog ℓ σ ε β} {s : σ} (hp : ∀ s, p.moments s = [])
    (hf : ∀ a s, (f a).moments s = []) : (p >>= f).moments s = [] := by
  simp only [Bind.bind, hp, hf, List.nil_append]
  split <;> rfl

/-- What follows a program that has ended. -/
theorem bind_run {p : Prog ℓ σ ε α} {f : α → Prog ℓ σ ε β} {s s' : σ} {a : α} (h : p s = .ok (a, s')) :
    (p >>= f) s = f a s' := by
  simp only [Bind.bind, h]

/-- A turn of a loop that has ended. -/
theorem fold_run {f : β → α → Prog ℓ σ ε β} {b b' : β} {x : α} {xs : List α} {s s' : σ}
    (h : f b x s = .ok (b', s')) : fold f b (x :: xs) s = fold f b' xs s' := bind_run h

/-! ## One program -/

/-- From a state with `P` the program does not fail, and ends with `Q`. -/
def Meets (P : σ → Prop) (p : Prog ℓ σ ε α) (Q : α → σ → Prop) : Prop :=
  ∀ s, P s → ∃ a s', p s = .ok (a, s') ∧ Q a s'

namespace Meets

variable {P P' : σ → Prop} {p : Prog ℓ σ ε α} {Q Q' : α → σ → Prop}

theorem pure {a : α} (h : ∀ s, P s → Q a s) : Meets P (Pure.pure a : Prog ℓ σ ε α) Q :=
  fun s hs => ⟨a, s, rfl, h s hs⟩

theorem bind {f : α → Prog ℓ σ ε β} {R : α → σ → Prop} {Q : β → σ → Prop} (hp : Meets P p R)
    (hf : ∀ a, Meets (R a) (f a) Q) : Meets P (p >>= f) Q := by
  intro s hs
  obtain ⟨a, s₁, hrun, hr⟩ := hp s hs
  obtain ⟨b, s₂, hrun', hq⟩ := hf a s₁ hr
  refine ⟨b, s₂, ?_, hq⟩
  simp only [Bind.bind, hrun]
  exact hrun'

theorem act {l : ℓ} {f : σ → α × σ} (h : ∀ s, P s → Q (f s).1 (f s).2) :
    Meets P (Prog.act l f : Prog ℓ σ ε α) Q :=
  fun s hs => ⟨(f s).1, (f s).2, rfl, h s hs⟩

theorem reads {f : σ → α} (h : ∀ s, P s → Q (f s) s) : Meets P (Prog.reads f : Prog ℓ σ ε α) Q :=
  fun s hs => ⟨f s, s, rfl, h s hs⟩

theorem lift {r : Except ε α} (h : ∀ s, P s → ∃ a, r = .ok a ∧ Q a s) :
    Meets P (Prog.lift r : Prog ℓ σ ε α) Q := by
  intro s hs
  obtain ⟨a, rfl, hq⟩ := h s hs
  exact ⟨a, s, rfl, hq⟩

/-- The rule of consequence. -/
theorem conseq (h : Meets P p Q) (hpre : ∀ s, P' s → P s) (hpost : ∀ a s, Q a s → Q' a s) :
    Meets P' p Q' := by
  intro s hs
  obtain ⟨a, s', hrun, hq⟩ := h s (hpre s hs)
  exact ⟨a, s', hrun, hpost a s' hq⟩

theorem pre (h : Meets P p Q) (hpre : ∀ s, P' s → P s) : Meets P' p Q :=
  h.conseq hpre fun _ _ hq => hq

theorem post (h : Meets P p Q) (hpost : ∀ a s, Q a s → Q' a s) : Meets P p Q' :=
  h.conseq (fun _ hs => hs) hpost

/-- A precondition that does not look at the state. -/
theorem and_pre {φ : Prop} (h : φ → Meets P p Q) : Meets (fun s => φ ∧ P s) p Q := by
  rintro s ⟨hφ, hs⟩
  exact h hφ s hs

/-- **Loops.**  What every turn carries from the list read so far to one element more, the loop
carries over the whole list. -/
theorem fold {f : β → α → Prog ℓ σ ε β} {xs : List α} {b : β} (R : List α → β → σ → Prop)
    (hstep : ∀ front x post b, xs = front ++ x :: post →
      Meets (R front b) (f b x) (R (front ++ [x]))) :
    Meets (R [] b) (Prog.fold f b xs) (R xs) := by
  have hloop : ∀ post front b, xs = front ++ post →
      Meets (R front b) (Prog.fold f b post) (R xs) := by
    intro post
    induction post with
    | nil =>
      intro front b hxs
      rw [List.append_nil] at hxs
      subst hxs
      exact pure fun _ hs => hs
    | cons x post ih =>
      intro front b hxs
      refine bind (hstep front x post b hxs) fun b' => ?_
      exact ih (front ++ [x]) b' (by rw [hxs, List.append_assoc, List.singleton_append])
  exact hloop xs [] b rfl

end Meets

/-! ## One program that may fail -/

/-- If from a state with `P` the program does not fail, it ends with `Q`. -/
def Ensures (P : σ → Prop) (p : Prog ℓ σ ε α) (Q : α → σ → Prop) : Prop :=
  ∀ s a s', P s → p s = .ok (a, s') → Q a s'

namespace Ensures

variable {P : σ → Prop} {p : Prog ℓ σ ε α} {Q Q' : α → σ → Prop}

theorem pure {a : α} (h : ∀ s, P s → Q a s) : Ensures P (Pure.pure a : Prog ℓ σ ε α) Q := by
  rintro s a' s' hs hrun
  cases hrun
  exact h s hs

theorem bind {f : α → Prog ℓ σ ε β} {R : α → σ → Prop} {Q : β → σ → Prop} (hp : Ensures P p R)
    (hf : ∀ a, Ensures (R a) (f a) Q) : Ensures P (p >>= f) Q := by
  intro s b s' hs hrun
  obtain ⟨a, s₁, hp', hf'⟩ := bind_ok hrun
  exact hf a s₁ b s' (hp s a s₁ hs hp') hf'

theorem act {l : ℓ} {f : σ → α × σ} (h : ∀ s, P s → Q (f s).1 (f s).2) :
    Ensures P (Prog.act l f : Prog ℓ σ ε α) Q := by
  rintro s a s' hs hrun
  injection hrun with hrun
  have hs' := h s hs
  rw [hrun] at hs'
  exact hs'

theorem lift {r : Except ε α} (h : ∀ s a, r = .ok a → P s → Q a s) :
    Ensures P (Prog.lift r : Prog ℓ σ ε α) Q := by
  rintro s a s' hs hrun
  cases hr : r with
  | error e =>
    rw [hr] at hrun
    cases hrun
  | ok b =>
    rw [hr] at hrun
    cases hrun
    exact h s a hr hs

theorem reads {f : σ → α} (h : ∀ s, P s → Q (f s) s) : Ensures P (Prog.reads f : Prog ℓ σ ε α) Q := by
  rintro s a s' hs hrun
  cases hrun
  exact h s hs

theorem pre {P' : σ → Prop} (h : Ensures P p Q) (hpre : ∀ s, P' s → P s) : Ensures P' p Q :=
  fun s a s' hs hrun => h s a s' (hpre s hs) hrun

theorem post (h : Ensures P p Q) (hpost : ∀ a s, Q a s → Q' a s) : Ensures P p Q' :=
  fun s a s' hs hrun => hpost a s' (h s a s' hs hrun)

/-- A precondition that does not look at the state. -/
theorem and_pre {φ : Prop} (h : φ → Ensures P p Q) : Ensures (fun s => φ ∧ P s) p Q :=
  fun s a s' hs hrun => h hs.1 s a s' hs.2 hrun

/-- **Loops**, as in `Meets.fold`. -/
theorem fold {f : β → α → Prog ℓ σ ε β} {xs : List α} {b : β} (R : List α → β → σ → Prop)
    (hstep : ∀ front x post b, xs = front ++ x :: post →
      Ensures (R front b) (f b x) (R (front ++ [x]))) :
    Ensures (R [] b) (Prog.fold f b xs) (R xs) := by
  have hloop : ∀ post front b, xs = front ++ post →
      Ensures (R front b) (Prog.fold f b post) (R xs) := by
    intro post
    induction post with
    | nil =>
      intro front b hxs
      rw [List.append_nil] at hxs
      subst hxs
      exact pure fun _ hs => hs
    | cons x post ih =>
      intro front b hxs
      refine bind (hstep front x post b hxs) fun b' => ?_
      exact ih (front ++ [x]) b' (by rw [hxs, List.append_assoc, List.singleton_append])
  exact hloop xs [] b rfl

end Ensures

/-! ## The steps on the way -/

/-- From a state with `P` every step `l` is taken in a state with `M l`, and if the program does not fail, it
ends with `Q`. -/
def Along (P : σ → Prop) (p : Prog ℓ σ ε α) (M : ℓ → σ → Prop) (Q : α → σ → Prop) : Prop :=
  ∀ s, P s → (∀ m ∈ p.moments s, M m.1 m.2) ∧ ∀ a s', p s = .ok (a, s') → Q a s'

namespace Along

variable {P : σ → Prop} {M : ℓ → σ → Prop} {p : Prog ℓ σ ε α} {Q Q' : α → σ → Prop}

theorem pure {a : α} (h : ∀ s, P s → Q a s) : Along P (Pure.pure a : Prog ℓ σ ε α) M Q := by
  refine fun s hs => ⟨fun _ hmem => absurd hmem List.not_mem_nil, fun a' s' hrun => ?_⟩
  cases hrun
  exact h s hs

theorem bind {f : α → Prog ℓ σ ε β} {R : α → σ → Prop} {Q : β → σ → Prop}
    (hp : Along P p M R) (hf : ∀ a, Along (R a) (f a) M Q) : Along P (p >>= f) M Q := by
  intro s hs
  obtain ⟨hm, hr⟩ := hp s hs
  refine ⟨fun m hmem => ?_, fun b s' hend => ?_⟩
  · simp only [Bind.bind, List.mem_append] at hmem
    rcases hmem with hfirst | hrest
    · exact hm m hfirst
    · cases hrun : p s with
      | error e =>
        rw [hrun] at hrest
        exact absurd hrest List.not_mem_nil
      | ok r =>
        rw [hrun] at hrest
        exact (hf r.1 r.2 (hr r.1 r.2 hrun)).1 m hrest
  · obtain ⟨a, s₁, hrun, hrest⟩ := bind_ok hend
    exact (hf a s₁ (hr a s₁ hrun)).2 b s' hrest

/-- A program whose steps are looked at together. -/
theorem steps (hm : ∀ s, P s → ∀ m ∈ p.moments s, M m.1 m.2) (h : Ensures P p Q) : Along P p M Q :=
  fun s hs => ⟨hm s hs, fun a s' hrun => h s a s' hs hrun⟩

/-- One step. -/
theorem act {l : ℓ} {f : σ → α × σ} (hm : ∀ s, P s → M l s) (h : ∀ s, P s → Q (f s).1 (f s).2) :
    Along P (Prog.act l f : Prog ℓ σ ε α) M Q := by
  refine steps (fun s hs m hmem => ?_) (Ensures.act h)
  obtain rfl := List.mem_singleton.mp hmem
  exact hm s hs

/-- A program that takes no step. -/
theorem quiet (hp : ∀ s, p.moments s = []) (h : Ensures P p Q) : Along P p M Q := by
  refine steps (fun s hs m hmem => ?_) h
  rw [hp s] at hmem
  exact absurd hmem List.not_mem_nil

theorem pre {P' : σ → Prop} (h : Along P p M Q) (hpre : ∀ s, P' s → P s) : Along P' p M Q :=
  fun s hs => h s (hpre s hs)

theorem post (h : Along P p M Q) (hpost : ∀ a s, Q a s → Q' a s) : Along P p M Q' :=
  fun s hs => ⟨(h s hs).1, fun a s' hrun => hpost a s' ((h s hs).2 a s' hrun)⟩

/-- **Loops** that keep a property. -/
theorem fold {f : β → α → Prog ℓ σ ε β} {xs : List α}
    (hstep : ∀ x ∈ xs, ∀ b, Along P (f b x) M fun _ => P) :
    ∀ b, Along P (Prog.fold f b xs) M fun _ => P := by
  induction xs with
  | nil => exact fun b => pure fun _ hs => hs
  | cons x xs ih =>
    exact fun b => bind (hstep x List.mem_cons_self b) fun b' =>
      ih (fun y hy => hstep y (List.mem_cons_of_mem _ hy)) b'

end Along

end Prog
