import Ticketing.Storage.TableStore
import Ticketing.Storage.IndexPages

/-!
# A table sees its own file

What a function of the table layer returns, and what it makes of its file, depends on the index, the log, the
counters and the pages of that file: not on the size of the pool, on what else is in it, or on other files.

* `EndsAs` — the function ends alike over all pools that show the same file; `Settles` with what holds then.
  One rule for each way to build a function.
* `Decided` — the same of a function that does not look at the file.
-/

set_option autoImplicit false

namespace Ticketing

open Bytes BufferPool

/-- The pages of the memory are whole. -/
theorem Cached.length {n : Nat} {mem : PageKey → Bytes} {pages : Int → Nat} {pool : BufferPool}
    {files : DataFiles} (h : Cached n mem pages pool files) {k : PageKey} (hin : k.pageId < pages k.fd) :
    (mem k).length = PAGE_SIZE := by
  obtain ⟨hquiet, hpages⟩ := h
  by_cases hcached : ∃ i, pool.InUse n i ∧ (pool.frames i).key = k
  · obtain ⟨i, hi, rfl⟩ := hcached
    have hframe := hquiet.frame i hi
    exact (congrArg List.length hframe.buf.symm).trans hframe.length
  · push Not at hcached
    have hdisk : files.page k = mem k := (hquiet.out k hcached).page (by rw [hpages]; exact hin)
    rw [← hdisk]
    exact length_pageRead _ _

/-! ## The pages of a file -/

/-- The pages of the file under a descriptor. -/
def filePages (fd : Int) (mem : PageKey → Bytes) (pages : Int → Nat) : List Bytes :=
  (List.range (pages fd)).map fun p => mem ⟨fd, p⟩

section FilePages

variable {fd : Int} {mem mem' : PageKey → Bytes} {pages pages' : Int → Nat} {p : Nat}

theorem length_filePages : (filePages fd mem pages).length = pages fd := by
  rw [filePages, List.length_map, List.length_range]

theorem getD_filePages (hp : p < pages fd) : (filePages fd mem pages).getD p [] = mem ⟨fd, p⟩ := by
  rw [List.getD_eq_getElem?_getD, filePages, List.getElem?_map, List.getElem?_range hp]
  rfl

theorem filePages_congr (hpages : pages' fd = pages fd) (hmem : ∀ p < pages fd, mem' ⟨fd, p⟩ = mem ⟨fd, p⟩) :
    filePages fd mem' pages' = filePages fd mem pages := by
  unfold filePages
  rw [hpages]
  exact List.map_congr_left fun p hp => hmem p (List.mem_range.mp hp)

theorem filePages_write (page : Bytes) :
    filePages fd (Function.update mem ⟨fd, p⟩ page) pages = (filePages fd mem pages).set p page := by
  apply List.ext_getElem?
  intro q
  rw [List.getElem?_set, length_filePages]
  unfold filePages
  rw [List.getElem?_map, List.getElem?_map]
  rcases Nat.lt_or_ge q (pages fd) with hq | hq
  · rw [List.getElem?_range hq, Option.map_some, Option.map_some]
    rcases eq_or_ne p q with rfl | hne
    · rw [if_pos rfl, if_pos hq, Function.update_self]
    · rw [if_neg hne, Function.update_of_ne fun heq => hne (congrArg PageKey.pageId heq).symm]
  · rw [List.getElem?_eq_none (by rw [List.length_range]; exact hq)]
    split
    · rw [if_neg (by omega)]
      rfl
    · rfl

theorem filePages_grow (page : Bytes) :
    filePages fd (Function.update mem ⟨fd, pages fd⟩ page) (Function.update pages fd (pages fd + 1)) =
      filePages fd mem pages ++ [page] := by
  unfold filePages
  rw [Function.update_self, List.range_succ, List.map_append, List.map_singleton, Function.update_self]
  congr 1
  refine List.map_congr_left fun p hp => Function.update_of_ne (fun heq => ?_) _ _
  exact absurd (congrArg PageKey.pageId heq) (Nat.ne_of_lt (List.mem_range.mp hp))

end FilePages

/-! ## Functions beside the pages -/

/-- The environment with other index, log and counters. -/
def TableEnv.withRest (s : TableEnv) (r : TableRest) : TableEnv :=
  { s with pkIndex := r.pkIndex, wal := r.wal, nextId := r.nextId }

/-- How the function ends depends on the index, the log and the counters, and it changes nothing else; `Q` holds if
it is not with an access out of bounds. -/
def Decided {α : Type} (r : TableRest) (p : TableProg α) (Q : α → TableRest → Prop) : Prop :=
  ∃ out : Except BadAccess (α × TableRest),
    (∀ s : TableEnv, s.rest = r → s.io = IoScript.ok → p s = out.map fun x => (x.1, s.withRest x.2)) ∧
      ∀ a r', out = .ok (a, r') → Q a r'

namespace Decided

variable {α β : Type} {r : TableRest} {p : TableProg α} {Q Q' : α → TableRest → Prop}

theorem act {l : LayerStep} {f : TableEnv → α × TableEnv} (a : α) (r' : TableRest)
    (h : ∀ s : TableEnv, s.rest = r → s.io = IoScript.ok → f s = (a, s.withRest r')) (hq : Q a r') :
    Decided r (Prog.act l f) Q := by
  refine ⟨.ok (a, r'), fun s hs hio => congrArg Except.ok (h s hs hio), fun a' r'' heq => ?_⟩
  cases heq
  exact hq

theorem pure {a : α} (h : Q a r) : Decided r (Pure.pure a) Q := by
  refine ⟨.ok (a, r), fun s hs _ => ?_, fun a' r' heq => ?_⟩
  · subst hs
    rfl
  · cases heq
    exact h

theorem lift {e : Except BadAccess α} (h : ∀ a, e = .ok a → Q a r) : Decided r (Prog.lift e) Q := by
  refine ⟨e.map fun a => (a, r), fun s hs _ => ?_, fun a r' heq => ?_⟩
  · subst hs
    cases e <;> rfl
  · cases e with
    | error e => cases heq
    | ok b =>
      cases heq
      exact h _ rfl

theorem bind {f : α → TableProg β} {Q : β → TableRest → Prop} {R : α → TableRest → Prop} (hp : Decided r p R)
    (hf : ∀ a r', R a r' → Decided r' (f a) Q) : Decided r (p >>= f) Q := by
  obtain ⟨out, hrun, hR⟩ := hp
  cases out with
  | error e =>
    refine ⟨.error e, fun s hs hio => ?_, fun a r' heq => by cases heq⟩
    simp only [Bind.bind, hrun s hs hio]
    rfl
  | ok x =>
    obtain ⟨out', hrun', hQ⟩ := hf x.1 x.2 (hR x.1 x.2 rfl)
    exact ⟨out', fun s hs hio => (Prog.bind_run (hrun s hs hio)).trans (hrun' _ rfl hio), hQ⟩

theorem post (h : Decided r p Q) (hpost : ∀ a r', Q a r' → Q' a r') : Decided r p Q' := by
  obtain ⟨out, hrun, hQ⟩ := h
  exact ⟨out, hrun, fun a r' heq => hpost a r' (hQ a r' heq)⟩

theorem index {f : BTree → TableProg α} (h : Decided r (f r.pkIndex) Q) :
    Decided r (Prog.reads TableEnv.pkIndex >>= f) Q := by
  obtain ⟨out, hrun, hQ⟩ := h
  refine ⟨out, fun s hs hio => ?_, hQ⟩
  rw [← hrun s hs hio]
  subst hs
  rfl

theorem setIndex (t : BTree) {Q : Unit → TableRest → Prop} (h : Q () { r with pkIndex := t }) :
    Decided r (Ticketing.setIndex t) Q :=
  .act () { r with pkIndex := t } (fun s hs _ => by subst hs; rfl) h

/-- A call of the log whose writes succeed. -/
theorem walCall {log : Wal → IoScript → UInt64 × Wal × IoScript} {Q : UInt64 → TableRest → Prop}
    (hlog : (log r.wal IoScript.ok).2.2 = IoScript.ok) (h : ∀ lsn wal, Q lsn { r with wal := wal }) :
    Decided r (Ticketing.walCall log) Q := by
  refine .act (log r.wal IoScript.ok).1 { r with wal := (log r.wal IoScript.ok).2.1 } (fun s hs hio => ?_) (h _ _)
  subst hs
  simp only [hio, show s.rest.wal = s.wal from rfl] at hlog ⊢
  rw [hlog, TableEnv.withRest, ← hio]
  rfl

/-- A loop that keeps a property. -/
theorem fold {f : β → α → TableProg β} {xs : List α} {J : β → TableRest → Prop}
    (hstep : ∀ x ∈ xs, ∀ b r, J b r → Decided r (f b x) J) :
    ∀ {b r}, J b r → Decided r (Prog.fold f b xs) J := by
  induction xs with
  | nil => exact fun h => pure h
  | cons x xs ih =>
    exact fun h => bind (hstep x List.mem_cons_self _ _ h) fun b' r' h' =>
      ih (fun y hy => hstep y (List.mem_cons_of_mem _ hy)) h'

end Decided

/-! ## Functions on one file -/

/-- How a function ends that works on one file: out of bounds, or with a result, the rest and the pages. -/
abbrev Ending (α : Type) := Except BadAccess (α × TableRest × List Bytes)

theorem OnlyFile.trans {fd : Int} {mem mem' mem'' : PageKey → Bytes} {pages pages' pages'' : Int → Nat}
    (h : OnlyFile fd mem mem' pages pages') (h' : OnlyFile fd mem' mem'' pages' pages'') :
    OnlyFile fd mem mem'' pages pages'' :=
  ⟨fun k hk => (h'.1 k hk).trans (h.1 k hk), fun fd' hne => (h'.2 fd' hne).trans (h.2 fd' hne)⟩

/-- Over every pool that shows the pages `F` of the table's file the function ends alike, and leaves other files
alone.  It marks pages of the file only if `w`. -/
def EndsAs {α : Type} (w : Prop) (table : Table) (r : TableRest) (F : List Bytes) (p : TableProg α)
    (out : Ending α) : Prop :=
  ∀ n S mem pages s, 0 < n → n < 2 ^ 30 → (w → S table.dataFd) → filePages table.dataFd mem pages = F →
    Shows (Shown n S mem pages) r s →
    match out with
    | .error e => p s = .error e
    | .ok (a, r', F') => ∃ mem' pages' s', p s = .ok (a, s') ∧ Shows (Shown n S mem' pages') r' s' ∧
        filePages table.dataFd mem' pages' = F' ∧ OnlyFile table.dataFd mem mem' pages pages'

/-- It ends alike, and `Q` holds if it is not with an access out of bounds. -/
def Settles {α : Type} (w : Prop) (table : Table) (r : TableRest) (F : List Bytes) (p : TableProg α)
    (Q : α → TableRest → List Bytes → Prop) : Prop :=
  ∃ out, EndsAs w table r F p out ∧ ∀ a r' F', out = .ok (a, r', F') → Q a r' F'

/-- The pages after a visit. -/
def setPage (F : List Bytes) (pageId : Nat) : Option Bytes → List Bytes
  | none => F
  | some page => F.set pageId page

@[simp] theorem length_setPage (F : List Bytes) (pageId : Nat) (w : Option Bytes) :
    (setPage F pageId w).length = F.length := by
  cases w with
  | none => rfl
  | some page => exact List.length_set

namespace Settles

variable {α β : Type} {w : Prop} {table : Table} {r : TableRest} {F : List Bytes} {p : TableProg α}
  {Q Q' : α → TableRest → List Bytes → Prop}

theorem decided (h : Decided r p fun a r' => Q a r' F) : Settles w table r F p Q := by
  obtain ⟨out, hrun, hQ⟩ := h
  refine ⟨out.map fun x => (x.1, x.2, F), fun n S mem pages s _ _ _ hF hs => ?_, fun a r' F' heq => ?_⟩
  · have hps := hrun s hs.rest hs.io
    cases out with
    | error e => exact hps
    | ok x => exact ⟨mem, pages, _, hps, ⟨hs.pool, rfl, hs.io⟩, hF, fun _ _ => rfl, fun _ _ => rfl⟩
  · cases out with
    | error e => cases heq
    | ok x =>
      cases heq
      exact hQ _ _ rfl

theorem pure {a : α} (h : Q a r F) : Settles w table r F (Pure.pure a) Q := decided (.pure h)

theorem bind {f : α → TableProg β} {Q : β → TableRest → List Bytes → Prop}
    {R : α → TableRest → List Bytes → Prop} (hp : Settles w table r F p R)
    (hf : ∀ a r' F', R a r' F' → Settles w table r' F' (f a) Q) : Settles w table r F (p >>= f) Q := by
  obtain ⟨out, hends, hR⟩ := hp
  cases out with
  | error e =>
    refine ⟨.error e, fun n S mem pages s hn hn' hS hF hs => ?_, fun a r' F' heq => by cases heq⟩
    have hps : p s = .error e := hends n S mem pages s hn hn' hS hF hs
    show (p >>= f) s = .error e
    simp only [Bind.bind, hps]
  | ok x =>
    obtain ⟨a, r', F'⟩ := x
    obtain ⟨out', hends', hQ⟩ := hf a r' F' (hR a r' F' rfl)
    refine ⟨out', fun n S mem pages s hn hn' hS hF hs => ?_, hQ⟩
    obtain ⟨mem', pages', s', hps, hs', hF', honly⟩ := hends n S mem pages s hn hn' hS hF hs
    have hrest := hends' n S mem' pages' s' hn hn' hS hF' hs'
    cases out' with
    | error e => exact (Prog.bind_run hps).trans hrest
    | ok y =>
      obtain ⟨mem'', pages'', s'', hfs, hs'', hF'', honly'⟩ := hrest
      exact ⟨mem'', pages'', s'', (Prog.bind_run hps).trans hfs, hs'', hF'', honly.trans honly'⟩

/-- Binds may be nested either way. -/
theorem assoc {γ : Type} {f : α → TableProg β} {g : β → TableProg γ} {Q : γ → TableRest → List Bytes → Prop}
    (h : Settles w table r F ((p >>= f) >>= g) Q) : Settles w table r F (p >>= fun a => f a >>= g) Q := by
  obtain ⟨out, hends, hQ⟩ := h
  refine ⟨out, fun n S mem pages s hn hn' hS hF hs => ?_, hQ⟩
  have hsame : (p >>= fun a => f a >>= g) s = ((p >>= f) >>= g) s := by
    simp only [Bind.bind]
    cases p s <;> rfl
  rw [hsame]
  exact hends n S mem pages s hn hn' hS hF hs

theorem post (h : Settles w table r F p Q) (hpost : ∀ a r' F', Q a r' F' → Q' a r' F') :
    Settles w table r F p Q' := by
  obtain ⟨out, hends, hQ⟩ := h
  exact ⟨out, hends, fun a r' F' heq => hpost a r' F' (hQ a r' F' heq)⟩

/-- A loop that keeps a property. -/
theorem fold {f : β → α → TableProg β} {xs : List α} {J : β → TableRest → List Bytes → Prop}
    (hstep : ∀ x ∈ xs, ∀ b r F, J b r F → Settles w table r F (f b x) J) :
    ∀ {b r F}, J b r F → Settles w table r F (Prog.fold f b xs) J := by
  induction xs with
  | nil => exact fun h => pure h
  | cons x xs ih =>
    exact fun h => bind (hstep x List.mem_cons_self _ _ _ h) fun b' r' F' h' =>
      ih (fun y hy => hstep y (List.mem_cons_of_mem _ hy)) h'

/-- `page_get_count`. -/
theorem pageCount (hfew : F.length < 2 ^ 32) {Q : Nat → TableRest → List Bytes → Prop} (h : Q F.length r F) :
    Settles w table r F (Ticketing.pageCount table) Q := by
  refine ⟨.ok (F.length, r, F), fun n S mem pages s _ _ _ hF hs => ?_, fun a r' F' heq => ?_⟩
  · refine ⟨mem, pages, s, ?_, hs, hF, fun _ _ => rfl, fun _ _ => rfl⟩
    have hcount : pageGetCount (s.files table.dataFd) = F.length := by
      rw [← hF, length_filePages] at hfew ⊢
      rw [← hs.pool.1.2] at hfew ⊢
      exact Nat.mod_eq_of_lt hfew
    rw [← hcount]
    rfl
  · cases heq
    exact h

/-- **A new page.** -/
theorem alloc (hfew : F.length < 2 ^ 32) {Q : Nat → TableRest → List Bytes → Prop}
    (h : Q F.length r (F ++ [pageInitHeader F.length (etpRecordSize table.id)])) :
    Settles w table r F (allocPage table) Q := by
  refine ⟨.ok (F.length, r, F ++ [pageInitHeader F.length (etpRecordSize table.id)]),
    fun n S mem pages s hn hn' _ hF hs => ?_, fun a r' F' heq => ?_⟩
  · subst hF
    rw [length_filePages] at hfew ⊢
    obtain ⟨_, s', hps, rfl, hs'⟩ := Runs.alloc hn hn' hfew s ⟨hs.pool.1, hs.rest, hs.io⟩
    have hpool : s'.pool = s.pool := by
      injection hps with hps
      exact (congrArg (fun x => x.2.pool) hps).symm
    refine ⟨_, _, s', hps, ⟨⟨hs'.pool, hs.pool.2.frames (by rw [hpool])⟩, hs'.rest, hs'.io⟩, filePages_grow _,
      (OnlyFile.update _ _ _ _ pages).1, fun fd' hne => Function.update_of_ne hne _ _⟩
  · cases heq
    exact h

/-- **A visit** of a page of the file. -/
theorem visit {pageId : Nat} {fail : α} {body : Bytes → TableProg (α × Option Bytes)} (hin : pageId < F.length)
    (hbody : (F.getD pageId []).length = PAGE_SIZE → Decided r (body (F.getD pageId [])) fun out r' =>
      (∀ page, out.2 = some page → w ∧ page.length = PAGE_SIZE) ∧ Q out.1 r' (setPage F pageId out.2)) :
    Settles w table r F (visitPage table pageId fail body) Q := by
  by_cases hlen : (F.getD pageId []).length = PAGE_SIZE
  · obtain ⟨out, hrun, hQ⟩ := hbody hlen
    refine ⟨out.map fun x => (x.1.1, x.2, setPage F pageId x.1.2), fun n S mem pages s hn hn' hS hF hs => ?_,
      fun a r' F' heq => ?_⟩
    · subst hF
      rw [length_filePages] at hin
      rw [getD_filePages hin] at hrun
      obtain ⟨i, s₁, hfetch, hs₁, hbuf⟩ := fetchPage_shown hn hn' hin hs
      have hvisit : visitPage table pageId fail body s = (do
          let x ← body (mem ⟨table.dataFd, pageId⟩)
          writePage table pageId i x.2
          unpinPage table pageId
          Pure.pure x.1) s₁ := by
        rw [← hbuf]
        exact Prog.bind_run hfetch
      have hps := hrun s₁ hs₁.rest hs₁.io
      cases out with
      | error e =>
        show visitPage table pageId fail body s = .error e
        rw [hvisit]
        simp only [Bind.bind, hps]
        rfl
      | ok x =>
        obtain ⟨⟨a, wr⟩, r'⟩ := x
        obtain ⟨hwrite, -⟩ := hQ _ _ rfl
        have hback : Runs (ShownAt n S mem pages ⟨table.dataFd, pageId⟩ i false) r' (do
            writePage table pageId i wr
            unpinPage table pageId
            Pure.pure a) a (Shown n S (afterVisit mem ⟨table.dataFd, pageId⟩ wr) pages) r' :=
          Runs.giveBack hn hn' a fun page heq => ⟨(hwrite page heq).2, hS (hwrite page heq).1⟩
        obtain ⟨_, s₂, hend, rfl, hs₂⟩ := hback (s₁.withRest r') ⟨hs₁.pool, rfl, hs₁.io⟩
        refine ⟨afterVisit mem ⟨table.dataFd, pageId⟩ wr, pages, s₂, ?_, hs₂, ?_, ?_⟩
        · rw [hvisit]
          exact (Prog.bind_run hps).trans hend
        · cases wr with
          | none => rfl
          | some page => exact filePages_write page
        · cases wr with
          | none => exact ⟨fun _ _ => rfl, fun _ _ => rfl⟩
          | some page => exact OnlyFile.update _ _ _ _ _
    · cases out with
      | error e => cases heq
      | ok x =>
        cases heq
        exact (hQ _ _ rfl).2
  · -- no pool shows such a page
    refine ⟨.error ⟨0, 0, 0⟩, fun n S mem pages s _ _ _ hF hs => ?_, fun a r' F' heq => by cases heq⟩
    subst hF
    rw [length_filePages] at hin
    rw [getD_filePages hin] at hlen
    exact absurd (hs.pool.1.length hin) hlen

end Settles

end Ticketing
