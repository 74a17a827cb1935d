import Ticketing.Storage.BTreeInvariant

/-!
# B+ tree: what one operation does

* `findLeaf_spec` — `find_leaf` reaches the leaf responsible for a key, and a write through it that
  drops or replaces entries keeps the tree ordered.
* `LeavesInserted` — the effect of an insertion on the leaves from left to right: one leaf grows by
  the new binding, or is replaced by its two halves, the new one linked in behind the old.
* `PathFits`, `insertRecursive_fits` — where the nodes on the path have room, an insertion keeps the
  tree ordered whatever splits fail for want of memory.
-/

set_option autoImplicit false

namespace Ticketing

/-- Node allocation always succeeds. -/
def allocOk : Nat → Bool := fun _ => true

/-! ## Lists of children -/

theorem BNode.leavesList_append (a b : List BNode) :
    BNode.leavesList (a ++ b) = BNode.leavesList a ++ BNode.leavesList b := by
  induction a with
  | nil => rfl
  | cons c a ih => simp [BNode.leavesList, ih]

theorem BNode.mem_leavesList {l : BLeaf} {cs : List BNode} :
    l ∈ BNode.leavesList cs ↔ ∃ c ∈ cs, l ∈ c.leaves := by
  induction cs with
  | nil => simp [BNode.leavesList]
  | cons c cs ih => simp [BNode.leavesList, ih]

theorem insertChild_eq (order : Nat) (alloc : Nat → Bool) (key : Nat) (value : RecordPtr)
    (addr : Nat) (c : BNode) (cr : List BNode) : ∀ cl : List BNode,
    insertChild order alloc key value addr cl.length (cl ++ c :: cr) =
      insertRecursive order alloc key value addr c
  | [] => by simp [insertChild]
  | _ :: cl => by
    simp only [List.length_cons, List.cons_append, insertChild]
    exact insertChild_eq order alloc key value addr c cr cl

theorem findLeafChild_eq (key : Nat) (c : BNode) (cr : List BNode) : ∀ cl : List BNode,
    findLeafChild key cl.length (cl ++ c :: cr) = findLeaf key c
  | [] => by simp [findLeafChild]
  | _ :: cl => by
    simp only [List.length_cons, List.cons_append, findLeafChild]
    exact findLeafChild_eq key c cr cl

theorem modifyLeafChild_eq (key : Nat) (f : List (Nat × RecordPtr) → List (Nat × RecordPtr))
    (c : BNode) (cr : List BNode) : ∀ cl : List BNode,
    modifyLeafChild key f cl.length (cl ++ c :: cr) = cl ++ modifyLeaf key f c :: cr
  | [] => by simp [modifyLeafChild]
  | x :: cl => by
    simp only [List.length_cons, List.cons_append, modifyLeafChild]
    rw [modifyLeafChild_eq key f c cr cl]

theorem set_focus {α : Type} (cl cr : List α) (c x : α) :
    (cl ++ c :: cr).set cl.length x = cl ++ x :: cr := by
  rw [List.set_append_right _ _ (Nat.le_refl _)]; simp

theorem insertAt_length {α : Type} (l r : List α) (x : α) :
    insertAt l.length x (l ++ r) = l ++ x :: r := by
  simp [insertAt]

theorem insertAt_after {α : Type} (cl cr : List α) (x y : α) :
    insertAt (cl.length + 1) y (cl ++ x :: cr) = cl ++ x :: y :: cr := by
  have := insertAt_length (cl ++ [x]) cr y
  simpa using this

/-! ## Ranges of whole subtrees -/

theorem Ordered.leaf_range {order : Nat} : ∀ {h : Nat} {lo hi : Option Nat} {n : BNode},
    Ordered order h lo hi n → ∀ l ∈ n.leaves, ∀ k ∈ l.keys, InRange lo hi k := by
  intro h
  induction h with
  | zero =>
    intro lo hi n hn l hl
    match n, hn with
    | .leaf l', hn =>
      simp only [BNode.leaves, List.mem_singleton] at hl
      subst hl
      exact hn.2.1
  | succ h ih =>
    intro lo hi n hn l hl k hk
    match n, hn with
    | .inner ks cs, hn =>
      obtain ⟨c, hc, hlc⟩ := BNode.mem_leavesList.mp hl
      obtain ⟨lo', hi', hp, hlo, hhi⟩ := hn.1.mem c hc
      exact (ih hp l hlc k hk).mono hlo hhi

theorem Ordered.left_leaves {order h key : Nat} {cl : List BNode}
    (hcl : ∀ x ∈ cl, ∃ a b, Ordered order h a (some b) x ∧ b ≤ key) :
    ∀ l ∈ BNode.leavesList cl, ∀ k ∈ l.keys, k < key := by
  intro l hl k hk
  obtain ⟨c, hc, hlc⟩ := BNode.mem_leavesList.mp hl
  obtain ⟨a, b, hp, hb⟩ := hcl c hc
  exact Nat.lt_of_lt_of_le (hp.leaf_range l hlc k hk).2 hb

theorem Ordered.right_leaves {order h key : Nat} {cr : List BNode}
    (hcr : ∀ x ∈ cr, ∃ a b, Ordered order h (some a) b x ∧ key < a) :
    ∀ l ∈ BNode.leavesList cr, ∀ k ∈ l.keys, key < k := by
  intro l hl k hk
  obtain ⟨c, hc, hlc⟩ := BNode.mem_leavesList.mp hl
  obtain ⟨a, b, hp, ha⟩ := hcr c hc
  exact Nat.lt_of_lt_of_le ha (hp.leaf_range l hlc k hk).1

/-- The separators of an inner node are few enough for an `int`. -/
theorem Ordered.small {order h : Nat} {lo hi : Option Nat} {ks : List Nat} {cs : List BNode}
    (hn : Ordered order (h + 1) lo hi (.inner ks cs)) (hsmall : order ≤ 2 ^ 30 + 2) : ks.length ≤ 2 ^ 30 :=
  Nat.le_trans hn.2 (by omega)

/-! ## `find_leaf` -/

/-- The leaf responsible for a key, in its place among the leaves. -/
structure FoundLeaf (order h : Nat) (lo hi : Option Nat) (key : Nat) (n : BNode)
    (pre : List BLeaf) (leaf : BLeaf) (post : List BLeaf) : Prop where
  found : findLeaf key n = some leaf
  leaves : n.leaves = pre ++ leaf :: post
  left : ∀ l ∈ pre, ∀ k ∈ l.keys, k < key
  right : ∀ l ∈ post, ∀ k ∈ l.keys, key < k
  sorted : leaf.keys.Pairwise (· < ·)
  short : leaf.keys.length ≤ order - 2
  modify_leaves : ∀ f, (modifyLeaf key f n).leaves =
    pre ++ { leaf with entries := f leaf.entries } :: post
  modify_ordered : ∀ f, ((f leaf.entries).map Prod.fst).Sublist leaf.keys →
    Ordered order h lo hi (modifyLeaf key f n)

theorem findLeaf_spec {order key : Nat} (hsmall : order ≤ 2 ^ 30 + 2) : ∀ {h : Nat} {lo hi : Option Nat} {n : BNode},
    Ordered order h lo hi n → InRange lo hi key →
    ∃ pre leaf post, FoundLeaf order h lo hi key n pre leaf post := by
  intro h
  induction h with
  | zero =>
    intro lo hi n hn _
    match n, hn with
    | .leaf l, hn =>
      refine ⟨[], l, [], by simp [findLeaf], rfl, by simp, by simp, hn.1, hn.2.2,
        fun f => by simp [modifyLeaf, BNode.leaves], fun f hf => ?_⟩
      rw [modifyLeaf]
      exact ⟨hn.1.sublist hf, fun k hk => hn.2.1 k (hf.subset hk),
        Nat.le_trans hf.length_le hn.2.2⟩
  | succ h ih =>
    intro lo hi n hn hk
    match n, hn with
    | .inner ks cs, hn =>
      obtain ⟨l, r, cl, c, cr, lo', hi', F⟩ := hn.1.focus hk
      have hidx := F.childIndex hn.1.keys_sorted (hn.small hsmall)
      obtain ⟨pre, leaf, post, G⟩ := ih F.child F.range
      have hcs := F.children
      refine ⟨BNode.leavesList cl ++ pre, leaf, post ++ BNode.leavesList cr, ?_, ?_, ?_, ?_,
        G.sorted, G.short, ?_, ?_⟩
      · rw [findLeaf, hidx, hcs, findLeafChild_eq]
        exact G.found
      · rw [BNode.leaves, hcs, BNode.leavesList_append, BNode.leavesList, G.leaves]
        simp
      · intro x hx
        rcases List.mem_append.mp hx with hx | hx
        · exact Ordered.left_leaves F.left_nodes x hx
        · exact G.left x hx
      · intro x hx
        rcases List.mem_append.mp hx with hx | hx
        · exact G.right x hx
        · exact Ordered.right_leaves F.right_nodes x hx
      · intro f
        rw [modifyLeaf, hidx, hcs, modifyLeafChild_eq, BNode.leaves, BNode.leavesList_append,
          BNode.leavesList, G.modify_leaves]
        simp
      · intro f hf
        rw [modifyLeaf, hidx]
        refine ⟨?_, hn.2⟩
        have := F.set _ (G.modify_ordered f hf)
        rw [← modifyLeafChild_eq, ← hcs] at this
        exact this

/-! ## `insert_recursive` -/

/-- One leaf takes the new binding, possibly splitting in two. -/
inductive LeavesInserted (key : Nat) (value : RecordPtr) (addr : Nat) :
    List BLeaf → List BLeaf → Nat → Prop where
  | grow (pre post : List BLeaf) {x : BLeaf} {a b : List (Nat × RecordPtr)} :
      x.entries = a ++ b →
      LeavesInserted key value addr (pre ++ x :: post)
        (pre ++ { x with entries := a ++ (key, value) :: b } :: post) addr
  | split (pre post : List BLeaf) {x : BLeaf} {a b e₁ e₂ : List (Nat × RecordPtr)} :
      x.entries = a ++ b → e₁ ++ e₂ = a ++ (key, value) :: b →
      LeavesInserted key value addr (pre ++ x :: post)
        (pre ++ { x with entries := e₁, next := some addr } :: ⟨addr, e₂, x.next⟩ :: post)
        (addr + 1)

theorem LeavesInserted.frame {key addr addr' : Nat} {value : RecordPtr} {ls ls' : List BLeaf}
    (h : LeavesInserted key value addr ls ls' addr') (p q : List BLeaf) :
    LeavesInserted key value addr (p ++ (ls ++ q)) (p ++ (ls' ++ q)) addr' := by
  cases h with
  | @grow pre post x a b hx =>
    have : LeavesInserted key value addr _ _ _ := .grow (p ++ pre) (post ++ q) hx
    simpa using this
  | @split pre post x a b e₁ e₂ hx he =>
    have : LeavesInserted key value addr _ _ _ := .split (p ++ pre) (post ++ q) hx he
    simpa using this

/-- What `insert_recursive` returns on an ordered subtree. -/
inductive Inserted (order h : Nat) (lo hi : Option Nat) (key : Nat) (value : RecordPtr)
    (addr : Nat) (n : BNode) (r : InsertResult) : Prop where
  | duplicate : r.error = true → r.split = none → r.node = n →
      (∃ l ∈ n.leaves, key ∈ l.keys) → Inserted order h lo hi key value addr n r
  | grown : r.error = false → r.split = none → Ordered order h lo hi r.node →
      LeavesInserted key value addr n.leaves r.node.leaves r.nextAddr →
      Inserted order h lo hi key value addr n r
  | split (p : Nat) (right : BNode) : r.error = false → r.split = some (p, right) →
      Between lo hi p → Ordered order h lo (some p) r.node → Ordered order h (some p) hi right →
      LeavesInserted key value addr n.leaves (r.node.leaves ++ right.leaves) r.nextAddr →
      Inserted order h lo hi key value addr n r

/-! ### Room on the path -/

/-- Going up the path from the leaf, with the numbers of keys before the call: every node that takes a
key stays within `limit`, and within `cap - 2` unless it is split; a split that reaches the root finds
memory for a new one.  A node is split if it is full and memory for its right half is found, as the
`creates`-th `node_create` of the call. -/
def PathFits (order cap limit : Nat) (alloc : Nat → Bool) : Nat → List Nat → Prop
  | creates, [] => alloc creates = true
  | creates, count :: counts =>
    count + 1 ≤ limit ∧
      if order - 1 ≤ count + 1 ∧ alloc creates = true then
        PathFits order cap limit alloc (creates + 1) counts
      else count + 1 ≤ cap - 2

instance decidablePathFits (order cap limit : Nat) (alloc : Nat → Bool) :
    ∀ (creates : Nat) (counts : List Nat), Decidable (PathFits order cap limit alloc creates counts)
  | creates, [] => inferInstanceAs (Decidable (alloc creates = true))
  | creates, count :: counts =>
    have := decidablePathFits order cap limit alloc (creates + 1) counts
    inferInstanceAs (Decidable (count + 1 ≤ limit ∧
      if order - 1 ≤ count + 1 ∧ alloc creates = true then
        PathFits order cap limit alloc (creates + 1) counts
      else count + 1 ≤ cap - 2))

mutual

/-- The numbers of keys in the nodes from the leaf that is responsible for `key` to this one. -/
def pathCounts (key : Nat) : BNode → List Nat
  | .leaf l => [l.entries.length]
  | .inner ks cs => pathCountsChild key (childIndex ks key) cs ++ [ks.length]

/-- The same in `children[i]`. -/
def pathCountsChild (key : Nat) : Nat → List BNode → List Nat
  | _, [] => []
  | 0, c :: _ => pathCounts key c
  | i + 1, _ :: cs => pathCountsChild key i cs

end

theorem pathCountsChild_eq (key : Nat) (c : BNode) (cr : List BNode) : ∀ cl : List BNode,
    pathCountsChild key cl.length (cl ++ c :: cr) = pathCounts key c
  | [] => by simp [pathCountsChild]
  | _ :: cl => by
    simp only [List.length_cons, List.cons_append, pathCountsChild]
    exact pathCountsChild_eq key c cr cl

/-- Room in small nodes is room in larger ones. -/
theorem PathFits.mono {order cap cap' limit limit' : Nat} {alloc : Nat → Bool} (hcap : cap ≤ cap')
    (hlimit : limit ≤ limit') : ∀ {counts : List Nat} {creates : Nat},
    PathFits order cap limit alloc creates counts → PathFits order cap' limit' alloc creates counts := by
  intro counts
  induction counts with
  | nil => exact fun h => h
  | cons c counts ih =>
    rintro creates ⟨hle, hrest⟩
    refine ⟨Nat.le_trans hle hlimit, ?_⟩
    split
    · rename_i hsplit
      rw [if_pos hsplit] at hrest
      exact ih hrest
    · rename_i hsplit
      rw [if_neg hsplit] at hrest
      omega

/-- With memory, nodes that are not full have room. -/
theorem pathFits_allocOk {order : Nat} : ∀ {counts : List Nat} {creates : Nat}, 3 ≤ order →
    (∀ c ∈ counts, c ≤ order - 2) → PathFits order order (order - 1) allocOk creates counts := by
  intro counts
  induction counts with
  | nil => intro creates _ _; rfl
  | cons c counts ih =>
    intro creates ho h
    rw [List.forall_mem_cons] at h
    refine ⟨by omega, ?_⟩
    split
    · exact ih ho h.2
    · rename_i hfull
      have : ¬ order - 1 ≤ c + 1 := fun hle => hfull ⟨hle, rfl⟩
      omega

theorem pathCounts_le {cap key : Nat} (hsmall : cap ≤ 2 ^ 30 + 2) : ∀ {h : Nat} {lo hi : Option Nat} {n : BNode},
    Ordered cap h lo hi n → InRange lo hi key → ∀ c ∈ pathCounts key n, c ≤ cap - 2 := by
  intro h
  induction h with
  | zero =>
    intro lo hi n hn _ c hc
    match n, hn with
    | .leaf l, hn =>
      rw [pathCounts, List.mem_singleton] at hc
      have := hn.2.2
      rw [BLeaf.keys, List.length_map] at this
      omega
  | succ h ih =>
    intro lo hi n hn hk c hc
    match n, hn with
    | .inner ks cs, hn =>
      obtain ⟨l, r, cl, d, cr, lo', hi', F⟩ := hn.1.focus hk
      rw [pathCounts, F.childIndex hn.1.keys_sorted (hn.small hsmall), F.children, pathCountsChild_eq, List.mem_append,
        List.mem_singleton] at hc
      rcases hc with hc | rfl
      · exact ih F.child F.range c hc
      · exact hn.2

/-! ### One node -/

/-- A leaf that is split has two ordered halves. -/
theorem splitLeaf_spec {cap : Nat} {alloc : Nat → Bool} (halloc : alloc 0 = true)
    {lo hi : Option Nat} {key addr : Nat} {value : RecordPtr} {l : BLeaf}
    {a b : List (Nat × RecordPtr)} (hx : l.entries = a ++ b)
    (hs : ((a ++ (key, value) :: b).map Prod.fst).Pairwise (· < ·))
    (hr : ∀ k ∈ (a ++ (key, value) :: b).map Prod.fst, InRange lo hi k)
    (htwo : 2 ≤ (a ++ (key, value) :: b).length) (hcap : (a ++ (key, value) :: b).length ≤ cap - 1) :
    Inserted cap 0 lo hi key value addr (.leaf l)
      (splitLeaf alloc addr { l with entries := a ++ (key, value) :: b }) := by
  generalize hes : a ++ (key, value) :: b = es at hs hr htwo hcap
  obtain ⟨m, hm⟩ : ∃ m, m = es.length / 2 := ⟨_, rfl⟩
  have hm1 : 1 ≤ m := by omega
  have hm2 : m < es.length := by omega
  have hkeys : (es.map Prod.fst).length = es.length := by simp
  -- the promoted key is the first key of the right half
  obtain ⟨p, hp⟩ : ∃ p, p = (es.map Prod.fst).getD m 0 := ⟨_, rfl⟩
  have hpe : p = (es.map Prod.fst)[m] := by
    rw [hp, List.getD_eq_getElem?_getD, List.getElem?_eq_getElem (by omega)]; rfl
  have hpm : p ∈ es.map Prod.fst := by rw [hpe]; exact List.getElem_mem _
  have hleft : ∀ k ∈ (es.take m).map Prod.fst, k < p := by
    intro k hk
    rw [List.map_take] at hk
    obtain ⟨i, hi', rfl⟩ := List.mem_iff_getElem.mp hk
    have him : i < m := by simp at hi'; omega
    rw [List.getElem_take, hpe]
    exact List.pairwise_iff_getElem.mp hs i m (by omega) (by omega) him
  have hright : ∀ k ∈ (es.drop m).map Prod.fst, p ≤ k := by
    intro k hk
    rw [List.map_drop] at hk
    obtain ⟨i, hi', rfl⟩ := List.mem_iff_getElem.mp hk
    rw [List.getElem_drop, hpe]
    rcases Nat.eq_zero_or_pos i with rfl | hi0
    · simp
    · exact Nat.le_of_lt (List.pairwise_iff_getElem.mp hs m (m + i) (by omega) (by simp at hi' ⊢; omega)
        (by omega))
  have h0 : (es.map Prod.fst)[0] < p := by
    rw [hpe]; exact List.pairwise_iff_getElem.mp hs 0 m (by omega) (by omega) (by omega)
  have hbetween : Between lo hi p :=
    ⟨(hr _ (List.getElem_mem (show 0 < (es.map Prod.fst).length by omega))).1.strict h0,
      (hr p hpm).2⟩
  refine .split p (.leaf ⟨addr, es.drop m, l.next⟩) ?_ ?_ hbetween ?_ ?_ ?_
  · simp [splitLeaf, halloc]
  · simp [splitLeaf, halloc, BLeaf.keys, hm, hp]
  · simp only [splitLeaf, halloc, if_true, ← hm]
    refine ⟨?_, ?_, ?_⟩
    · exact hs.sublist ((List.take_sublist m es).map _)
    · intro k hk
      exact ⟨(hr k (((List.take_sublist m es).map _).subset hk)).1, hleft k hk⟩
    · simp [BLeaf.keys]; omega
  · refine ⟨?_, ?_, ?_⟩
    · exact hs.sublist ((List.drop_sublist m es).map _)
    · intro k hk
      exact ⟨hright k hk, (hr k (((List.drop_sublist m es).map _).subset hk)).2⟩
    · simp [BLeaf.keys]; omega
  · have hcut : es.take m ++ es.drop m = a ++ (key, value) :: b := by
      rw [List.take_append_drop, hes]
    have : LeavesInserted key value addr _ _ _ := .split [] [] hx hcut
    simpa [splitLeaf, halloc, BNode.leaves, hm] using this

section Room

variable {order cap limit : Nat} {alloc : Nat → Bool} {key addr : Nat} {value : RecordPtr}

/-- What a call does to a subtree if the path has room, and what it leaves to the nodes above. -/
structure InsertedWithin (order cap limit : Nat) (alloc : Nat → Bool) (h : Nat) (lo hi : Option Nat)
    (key : Nat) (value : RecordPtr) (addr : Nat) (n : BNode) (above : List Nat) (r : InsertResult) :
    Prop where
  inserted : Inserted cap h lo hi key value addr n r
  peak : r.peak ≤ limit
  above : r.split.isSome = true → PathFits order cap limit alloc r.creates above

theorem insertRecursive_leaf (ho : 3 ≤ order) (hsmall : cap ≤ 2 ^ 30 + 2) (hlow : cap - 2 ≤ limit) (hhigh : limit ≤ cap - 1)
    {lo hi : Option Nat} {l : BLeaf} {above : List Nat}
    (hn : Ordered cap 0 lo hi (.leaf l)) (hk : InRange lo hi key)
    (hfits : (insertRecursive order alloc key value addr (.leaf l)).error = false →
      PathFits order cap limit alloc 0 (l.entries.length :: above)) :
    InsertedWithin order cap limit alloc 0 lo hi key value addr (.leaf l) above
      (insertRecursive order alloc key value addr (.leaf l)) := by
  obtain ⟨hs, hr, hlen⟩ := hn
  obtain ⟨kl, kr, hcut, hkl, hkr⟩ := sorted_cut hs key
  have hpos : keyLowerBound l.keys key = kl.length := by
    have hshort : l.keys.length ≤ 2 ^ 30 := by omega
    rw [hcut] at hshort ⊢
    exact keyLowerBound_eq hkl hkr hshort
  have hklen : l.keys.length = l.entries.length := by simp [BLeaf.keys]
  rw [insertRecursive] at hfits ⊢
  simp only [hpos] at hfits ⊢
  split
  · -- duplicate key
    rename_i hdup
    refine ⟨.duplicate rfl rfl rfl ⟨l, by simp [BNode.leaves], ?_⟩, ?_, fun h => by cases h⟩
    · rw [← hdup.2, List.getD_eq_getElem?_getD, List.getElem?_eq_getElem hdup.1]
      exact List.getElem_mem _
    · show l.keys.length ≤ limit
      omega
  · rename_i hdup
    rw [if_neg hdup] at hfits
    -- no key equals `key`, so the keys after the cut lie strictly above it
    have hkr' : ∀ k ∈ kr, key < k := by
      intro k hkm
      have hle := hkr k hkm
      rcases Nat.lt_or_eq_of_le hle with h | h
      · exact h
      · exfalso
        cases kr with
        | nil => cases hkm
        | cons k0 kr =>
          have h0 : key ≤ k0 := hkr k0 (by simp)
          have hkk : k0 = key := by
            rcases List.mem_cons.mp hkm with rfl | hkm
            · exact h.symm
            · rw [hcut, List.pairwise_append, List.pairwise_cons] at hs
              have := hs.2.1.1 k hkm
              omega
          apply hdup
          rw [hcut]
          exact ⟨by simp, by simp [hkk]⟩
    have hsplit : l.entries = l.entries.take kl.length ++ l.entries.drop kl.length :=
      (List.take_append_drop _ _).symm
    generalize ha : l.entries.take kl.length = a at hsplit
    generalize hb : l.entries.drop kl.length = b at hsplit
    have hak : a.map Prod.fst = kl := by
      rw [← ha, List.map_take]
      show l.keys.take kl.length = kl
      rw [hcut]; simp
    have hbk : b.map Prod.fst = kr := by
      rw [← hb, List.map_drop]
      show l.keys.drop kl.length = kr
      rw [hcut]; simp
    have hins : insertAt kl.length (key, value) l.entries = a ++ (key, value) :: b := by
      rw [insertAt, ha, hb]
    have hmap : (a ++ (key, value) :: b).map Prod.fst = kl ++ key :: kr := by
      simp [hak, hbk]
    have hs' : ((a ++ (key, value) :: b).map Prod.fst).Pairwise (· < ·) := by
      rw [hmap, List.pairwise_append, List.pairwise_cons]
      rw [hcut, List.pairwise_append] at hs
      refine ⟨hs.1, ⟨hkr', hs.2.1⟩, ?_⟩
      intro x hx y hy
      rcases List.mem_cons.mp hy with rfl | hy
      · exact hkl x hx
      · exact hs.2.2 x hx y hy
    have hr' : ∀ k ∈ (a ++ (key, value) :: b).map Prod.fst, InRange lo hi k := by
      intro k hkm
      rw [hmap, List.mem_append, List.mem_cons] at hkm
      rw [hcut] at hr
      rcases hkm with h | rfl | h
      · exact hr k (List.mem_append_left _ h)
      · exact hk
      · exact hr k (List.mem_append_right _ h)
    have hlen' : (a ++ (key, value) :: b).length = l.entries.length + 1 := by
      rw [hsplit]; simp; omega
    have hgrown : ∀ r : InsertResult, r.error = false → r.split = none →
        r.node = .leaf { l with entries := a ++ (key, value) :: b } → r.nextAddr = addr →
        l.entries.length + 1 ≤ cap - 2 → Inserted cap 0 lo hi key value addr (.leaf l) r := by
      intro r he hsp hnode haddr hroom
      refine .grown he hsp ?_ ?_
      · rw [hnode]
        refine ⟨hs', hr', ?_⟩
        simp only [BLeaf.keys, List.length_map]
        omega
      · have : LeavesInserted key value addr _ _ _ := .grow [] [] hsplit
        simpa [BNode.leaves, hnode, haddr] using this
    rw [hins] at hfits ⊢
    simp only [ge_iff_le, hlen'] at hfits ⊢
    by_cases hfull : order - 1 ≤ l.entries.length + 1
    · simp only [if_pos hfull] at hfits ⊢
      cases halloc : alloc 0 with
      | true =>
        -- the leaf is split
        obtain ⟨hlimit, habove⟩ := hfits (by simp [splitLeaf, halloc])
        rw [if_pos ⟨hfull, halloc⟩] at habove
        refine ⟨splitLeaf_spec halloc hsplit hs' hr' (by omega) (by omega), ?_, fun _ => ?_⟩
        · simp only [splitLeaf, halloc, if_true]
          omega
        · simpa [splitLeaf, halloc] using habove
      | false =>
        -- there is no memory for the right half, and the leaf stays full
        obtain ⟨hlimit, hroom⟩ := hfits (by simp [splitLeaf, halloc])
        rw [if_neg (by simp [halloc])] at hroom
        refine ⟨hgrown _ ?_ ?_ ?_ ?_ hroom, ?_, fun h => ?_⟩
        · simp [splitLeaf, halloc]
        · simp [splitLeaf, halloc]
        · simp [splitLeaf, halloc]
        · simp [splitLeaf, halloc]
        · simp only [splitLeaf, halloc, Bool.false_eq_true, if_false]
          omega
        · simp [splitLeaf, halloc] at h
    · simp only [if_neg hfull] at hfits ⊢
      obtain ⟨hlimit, hroom⟩ := hfits trivial
      rw [if_neg fun h => hfull h.1] at hroom
      exact ⟨hgrown _ rfl rfl rfl rfl hroom, by show _ ≤ limit; omega, fun h => by cases h⟩

/-- An inner node that is split is split at its middle separator. -/
theorem splitInternal_spec {h creates : Nat} (halloc : alloc creates = true) {lo hi : Option Nat}
    {ks : List Nat} {cs : List BNode} (hc : Children (Ordered cap h) lo hi ks cs)
    (hone : 1 ≤ ks.length) (hcap : ks.length ≤ cap - 1) (addr peak : Nat) :
    ∃ p right,
      (splitInternal alloc creates addr peak ks cs).error = false ∧
      (splitInternal alloc creates addr peak ks cs).split = some (p, right) ∧
      (splitInternal alloc creates addr peak ks cs).nextAddr = addr ∧
      (splitInternal alloc creates addr peak ks cs).peak = max peak ks.length ∧
      Between lo hi p ∧
      Ordered cap (h + 1) lo (some p) (splitInternal alloc creates addr peak ks cs).node ∧
      Ordered cap (h + 1) (some p) hi right ∧
      (splitInternal alloc creates addr peak ks cs).node.leaves ++ right.leaves =
        BNode.leavesList cs := by
  obtain ⟨m, hm⟩ : ∃ m, m = ks.length / 2 := ⟨_, rfl⟩
  have hmlt : m < ks.length := by omega
  have hks : ks = ks.take m ++ ks[m] :: ks.drop (m + 1) := by simp
  have hl : (ks.take m).length = m := by simp; omega
  have hcut := hc
  rw [hks] at hcut
  obtain ⟨h1, h2, h3⟩ := hcut.cut
  rw [hl] at h1 h2
  refine ⟨ks[m], .inner (ks.drop (m + 1)) (cs.drop (m + 1)), ?_, ?_, ?_, ?_, h3, ?_, ?_, ?_⟩
  · simp [splitInternal, halloc]
  · simp [splitInternal, halloc, ← hm, List.getElem?_eq_getElem hmlt]
  · simp [splitInternal, halloc]
  · simp [splitInternal, halloc]
  · simp only [splitInternal, halloc, if_true, ← hm]
    exact ⟨h1, by rw [hl]; omega⟩
  · exact ⟨h2, by simp; omega⟩
  · simp only [splitInternal, halloc, if_true, ← hm, BNode.leaves]
    rw [← BNode.leavesList_append, List.take_append_drop]

/-- Only the leaf can report a duplicate. -/
theorem insertRecursive_inner_error (ks : List Nat) (cs : List BNode) :
    (insertRecursive order alloc key value addr (.inner ks cs)).error =
      (insertChild order alloc key value addr (childIndex ks key) cs).error := by
  rw [insertRecursive]
  generalize insertChild order alloc key value addr (childIndex ks key) cs = r
  obtain ⟨node, split, error, creates, nextAddr, peak⟩ := r
  cases error with
  | true => rfl
  | false =>
    cases split with
    | none => rfl
    | some s =>
      simp only [splitInternal]
      split
      · split <;> rfl
      · rfl

/-- A call that reports no duplicate does not find the key. -/
theorem keyFindExact_of_inserted (hsmall : cap ≤ 2 ^ 30 + 2) : ∀ {h : Nat} {lo hi : Option Nat} {n : BNode} {leaf : BLeaf},
    Ordered cap h lo hi n → InRange lo hi key → findLeaf key n = some leaf →
    (insertRecursive order alloc key value addr n).error = false →
    keyFindExact leaf.keys key = none := by
  intro h
  induction h with
  | zero =>
    intro lo hi n leaf hn _ hleaf herr
    match n, hn with
    | .leaf l, hn =>
      obtain rfl : l = leaf := Option.some.inj hleaf
      rw [insertRecursive] at herr
      by_cases hdup : keyLowerBound l.keys key < l.keys.length ∧
          l.keys.getD (keyLowerBound l.keys key) 0 = key
      · simp only [if_pos hdup] at herr
        cases herr
      · exact if_neg hdup
  | succ h ih =>
    intro lo hi n leaf hn hk hleaf herr
    match n, hn with
    | .inner ks cs, hn =>
      obtain ⟨l, r, cl, c, cr, lo', hi', F⟩ := hn.1.focus hk
      have hidx := F.childIndex hn.1.keys_sorted (hn.small hsmall)
      rw [insertRecursive_inner_error, hidx, F.children, insertChild_eq] at herr
      rw [findLeaf, hidx, F.children, findLeafChild_eq] at hleaf
      exact ih F.child F.range hleaf herr

/-- **`insert_recursive` on a path with room**: duplicate, growth or split, whatever splits fail. -/
theorem insertRecursive_fits (ho : 3 ≤ order) (hsmall : cap ≤ 2 ^ 30 + 2) (hlow : cap - 2 ≤ limit)
    (hhigh : limit ≤ cap - 1) : ∀ {h : Nat} {lo hi : Option Nat} {n : BNode} {above : List Nat},
    Ordered cap h lo hi n → InRange lo hi key →
    ((insertRecursive order alloc key value addr n).error = false →
      PathFits order cap limit alloc 0 (pathCounts key n ++ above)) →
    InsertedWithin order cap limit alloc h lo hi key value addr n above
      (insertRecursive order alloc key value addr n) := by
  intro h
  induction h with
  | zero =>
    intro lo hi n above hn hk hfits
    match n, hn with
    | .leaf l, hn => exact insertRecursive_leaf ho hsmall hlow hhigh hn hk hfits
  | succ h ih =>
    intro lo hi n above hn hk hfits
    match n, hn with
    | .inner ks cs, hn =>
      obtain ⟨l, r, cl, c, cr, lo', hi', F⟩ := hn.1.focus hk
      have hidx := F.childIndex hn.1.keys_sorted (hn.small hsmall)
      have hcs := F.children
      have hleaves : (BNode.inner ks cs).leaves =
          BNode.leavesList cl ++ (c.leaves ++ BNode.leavesList cr) := by
        rw [BNode.leaves, hcs, BNode.leavesList_append, BNode.leavesList]
      have hcall : insertChild order alloc key value addr (childIndex ks key) cs =
          insertRecursive order alloc key value addr c := by
        rw [hidx, hcs, insertChild_eq]
      have hpath : pathCounts key (.inner ks cs) ++ above = pathCounts key c ++ (ks.length :: above) := by
        rw [pathCounts, hidx, hcs, pathCountsChild_eq, List.append_assoc, List.singleton_append]
      rw [insertRecursive_inner_error, hcall, hpath] at hfits
      obtain ⟨hins, hpeak, habove⟩ := ih F.child F.range hfits
      rw [insertRecursive]
      simp only [hcall]
      generalize insertRecursive order alloc key value addr c = res at hins hpeak habove
      have hset : cs.set (childIndex ks key) res.node = cl ++ res.node :: cr := by
        rw [hidx, hcs, set_focus]
      rw [hset]
      cases hins with
      | duplicate he hsp hnode hmem =>
        have hres : cl ++ res.node :: cr = cs := by rw [hnode, hcs]
        simp only [he]
        refine ⟨.duplicate rfl rfl (by rw [hres]) ?_, hpeak, fun h => by cases h⟩
        obtain ⟨x, hx, hkx⟩ := hmem
        exact ⟨x, by rw [hleaves]; simp [hx], hkx⟩
      | grown he hsp hord hls =>
        simp only [he, hsp]
        refine ⟨.grown rfl rfl ⟨F.set _ hord, hn.2⟩ ?_, hpeak, fun h => by cases h⟩
        rw [hleaves, BNode.leaves, BNode.leavesList_append, BNode.leavesList]
        exact hls.frame _ _
      | split p right he hsp hb hleft hright hls =>
        simp only [he, hsp]
        have hpos := F.lowerBound hb (hn.small hsmall)
        have hks2 : insertAt (keyLowerBound ks p) p ks = l ++ p :: r := by
          rw [hpos, F.keys, insertAt_length]
        have hcs2 : insertAt (keyLowerBound ks p + 1) right (cl ++ res.node :: cr) =
            cl ++ res.node :: right :: cr := by
          rw [hpos, ← F.length, insertAt_after]
        rw [hks2, hcs2]
        have hchildren := F.split p res.node right hb hleft hright
        have hlen2 : (l ++ p :: r).length = ks.length + 1 := by rw [F.keys]; simp; omega
        have hleaves2 : BNode.leavesList (cl ++ res.node :: right :: cr) =
            BNode.leavesList cl ++ ((res.node.leaves ++ right.leaves) ++ BNode.leavesList cr) := by
          simp [BNode.leavesList_append, BNode.leavesList]
        have hframe := hls.frame (BNode.leavesList cl) (BNode.leavesList cr)
        rw [← hleaves, ← hleaves2] at hframe
        obtain ⟨hlimit, hrest⟩ := habove (by rw [hsp]; rfl)
        simp only [ge_iff_le]
        by_cases hfull : order - 1 ≤ ks.length + 1
        · rw [if_pos (by omega)]
          cases halloc : alloc res.creates with
          | true =>
            obtain ⟨p', right', e1, e2, e3, e4, e5, e6, e7, e8⟩ :=
              splitInternal_spec halloc hchildren (by omega) (by omega) res.nextAddr res.peak
            rw [if_pos ⟨hfull, halloc⟩] at hrest
            refine ⟨.split p' right' e1 e2 e5 e6 e7 ?_, by rw [e4]; omega, fun _ => ?_⟩
            · rw [e3, e8]
              exact hframe
            · simpa [splitInternal, halloc] using hrest
          | false =>
            -- there is no memory for the right half, and the node stays full
            rw [if_neg (by simp [halloc])] at hrest
            simp only [splitInternal, halloc, Bool.false_eq_true, if_false]
            exact ⟨.grown rfl rfl ⟨hchildren, by omega⟩ hframe, by show max _ _ ≤ limit; omega,
              fun h => by cases h⟩
        · rw [if_neg (by omega)]
          rw [if_neg fun h => hfull h.1] at hrest
          exact ⟨.grown rfl rfl ⟨hchildren, by omega⟩ hframe, by show max _ _ ≤ limit; omega,
            fun h => by cases h⟩

/-- The same from the root, for a key that a search does not find. -/
theorem insertRecursive_root {t : BTree} (ho : 3 ≤ t.order) (hsmall : cap ≤ 2 ^ 30 + 2) (hlow : cap - 2 ≤ limit)
    (hhigh : limit ≤ cap - 1) {h : Nat} {lo hi : Option Nat} (hord : Ordered cap h lo hi t.root)
    (hk : InRange lo hi key)
    (hfits : findPos t key = none → PathFits t.order cap limit alloc 0 (pathCounts key t.root)) :
    InsertedWithin t.order cap limit alloc h lo hi key value addr t.root []
      (insertRecursive t.order alloc key value addr t.root) := by
  refine insertRecursive_fits ho hsmall hlow hhigh hord hk fun herr => ?_
  rw [List.append_nil]
  refine hfits ?_
  obtain ⟨pre, leaf, post, F⟩ := findLeaf_spec hsmall hord hk
  rw [findPos, F.found]
  simp only [keyFindExact_of_inserted hsmall hord hk F.found herr, Option.map_none]

end Room

end Ticketing
