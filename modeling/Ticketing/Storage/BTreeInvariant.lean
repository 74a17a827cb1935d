import Ticketing.Storage.BTree
import Mathlib.Data.List.Chain

/-!
# B+ tree: the search-tree invariant and its zipper

* `keyLowerBound_eq` — the binary search finds the cut of any list that splits into keys below and
  keys at or above the target, and is short enough for an `int`.
* `Children P lo hi ks cs` — the children of an inner node, each in the range its separators carve
  out; `Ordered order h lo hi n` — a subtree of height `h` responsible for `[lo, hi)`.
* `Children.focus` — for a key in range, the one child that may hold it, with everything needed to
  put a changed child, or the two halves of a split one, back in its place.
* `findLeaf_spec` — `find_leaf` reaches the leaf responsible for a key; a write through it changes
  that leaf only.
-/

set_option autoImplicit false

namespace Ticketing

/-! ## Binary search -/

/-- Below `2 ^ 31` the sum of two positions does not overflow. -/
theorem intMid_eq {lo hi : Nat} (h : lo + hi < 2 ^ 31) : intMid lo hi = .ofNat ((lo + hi) / 2) :=
  if_pos h

/-- The middle, if there is one, lies between. -/
theorem intMid_ofNat {lo hi mid : Nat} (h : intMid lo hi = .ofNat mid) : mid ≤ (lo + hi) / 2 := by
  unfold intMid at h
  split at h <;> simp only [Int.ofNat_eq_natCast] at h <;> omega

theorem lowerBoundLoop_eq {l r : List Nat} {t : Nat} (hl : ∀ k ∈ l, k < t) (hr : ∀ k ∈ r, t ≤ k)
    (hsmall : (l ++ r).length ≤ 2 ^ 30) :
    ∀ (fuel lo hi : Nat), hi - lo ≤ fuel → lo ≤ l.length → l.length ≤ hi →
      hi ≤ (l ++ r).length → lowerBoundLoop (l ++ r) t fuel lo hi = some l.length := by
  intro fuel
  induction fuel with
  | zero =>
    intro lo hi hf h1 h2 _
    rw [lowerBoundLoop, show lo = l.length by omega]
  | succ fuel ih =>
    intro lo hi hf h1 h2 h3
    rw [lowerBoundLoop]
    split
    · rename_i hlt
      have hmid : (lo + hi) / 2 < (l ++ r).length := by omega
      rw [intMid_eq (by omega)]
      simp only [List.getD_eq_getElem?_getD, List.getElem?_eq_getElem hmid, Option.getD_some]
      by_cases hside : (lo + hi) / 2 < l.length
      · have : (l ++ r)[(lo + hi) / 2] < t := by
          rw [List.getElem_append_left hside]; exact hl _ (List.getElem_mem _)
        rw [if_pos this]
        exact ih _ _ (by omega) (by omega) h2 h3
      · have : ¬ (l ++ r)[(lo + hi) / 2] < t := by
          rw [List.getElem_append_right (by omega)]
          exact Nat.not_lt.mpr (hr _ (List.getElem_mem _))
        rw [if_neg this]
        exact ih _ _ (by omega) h1 (by omega) (by omega)
    · rw [show lo = l.length by omega]

/-- `key_lower_bound` on a list that splits into keys below and keys at or above the target. -/
theorem keyLowerBound_eq {l r : List Nat} {t : Nat} (hl : ∀ k ∈ l, k < t) (hr : ∀ k ∈ r, t ≤ k)
    (hsmall : (l ++ r).length ≤ 2 ^ 30) : keyLowerBound (l ++ r) t = l.length := by
  unfold keyLowerBound
  rw [lowerBoundLoop_eq hl hr hsmall _ _ _ (by simp) (by omega) (by simp) (Nat.le_refl _)]
  rfl

/-- Every strictly increasing list splits at a target. -/
theorem sorted_cut {ks : List Nat} (hs : ks.Pairwise (· < ·)) (t : Nat) :
    ∃ l r, ks = l ++ r ∧ (∀ k ∈ l, k < t) ∧ (∀ k ∈ r, t ≤ k) := by
  induction ks with
  | nil => exact ⟨[], [], rfl, by simp, by simp⟩
  | cons k ks ih =>
    rw [List.pairwise_cons] at hs
    by_cases hk : k < t
    · obtain ⟨l, r, rfl, hl, hr⟩ := ih hs.2
      refine ⟨k :: l, r, rfl, ?_, hr⟩
      intro x hx
      rcases List.mem_cons.mp hx with rfl | hx
      · exact hk
      · exact hl x hx
    · refine ⟨[], k :: ks, rfl, by simp, ?_⟩
      intro x hx
      rcases List.mem_cons.mp hx with rfl | hx
      · omega
      · have := hs.1 x hx; omega

/-- `key_find_exact` on a strictly increasing list. -/
theorem keyFindExact_spec {ks : List Nat} (hs : ks.Pairwise (· < ·)) (hsmall : ks.length ≤ 2 ^ 30) (key : Nat) :
    (keyFindExact ks key = none ∧ key ∉ ks) ∨
    ∃ l r, ks = l ++ key :: r ∧ keyFindExact ks key = some l.length := by
  obtain ⟨l, r, rfl, hl, hr⟩ := sorted_cut hs key
  have hpos := keyLowerBound_eq hl hr hsmall
  unfold keyFindExact
  simp only [hpos]
  cases r with
  | nil =>
    refine Or.inl ⟨by simp, ?_⟩
    intro hmem
    have := hl key (by simpa using hmem)
    omega
  | cons k r =>
    by_cases hk : k = key
    · subst hk
      exact Or.inr ⟨l, r, rfl, by simp⟩
    · refine Or.inl ⟨by simp [hk], ?_⟩
      intro hmem
      rw [List.pairwise_append, List.pairwise_cons] at hs
      have hkk := hr k (by simp)
      simp only [List.mem_append, List.mem_cons] at hmem
      rcases hmem with hmem | rfl | hmem
      · exact absurd (hl key hmem) (by omega)
      · exact hk rfl
      · have := hs.2.1.1 key hmem; omega

/-- The child index counts the separators at or below the key. -/
theorem childIndex_eq {l r : List Nat} {key : Nat} (hs : (l ++ r).Pairwise (· < ·))
    (hl : ∀ k ∈ l, k ≤ key) (hr : ∀ k ∈ r, key < k) (hsmall : (l ++ r).length ≤ 2 ^ 30) :
    childIndex (l ++ r) key = l.length := by
  unfold childIndex
  rcases List.eq_nil_or_concat l with rfl | ⟨l', k, rfl⟩
  · have hpos : keyLowerBound r key = 0 := keyLowerBound_eq (l := []) (r := r) (by simp)
      (fun x hx => Nat.le_of_lt (hr x hx)) hsmall
    simp only [List.nil_append, hpos, List.length_nil]
    cases r with
    | nil => simp
    | cons x r => have := hr x (by simp); simp; omega
  · rw [List.concat_eq_append] at hs hl hsmall ⊢
    have hl' : ∀ x ∈ l', x < key := by
      intro x hx
      rw [List.append_assoc, List.pairwise_append] at hs
      have := hs.2.2 x hx k (by simp)
      have := hl k (by simp)
      omega
    by_cases hk : k = key
    · subst hk
      have hpos := keyLowerBound_eq (l := l') (r := k :: r) (t := k) hl' (by
        intro x hx
        rcases List.mem_cons.mp hx with rfl | hx
        · omega
        · exact Nat.le_of_lt (hr x hx)) (by simpa using hsmall)
      simp only [List.append_assoc, List.singleton_append, hpos]
      simp
    · have hpos := keyLowerBound_eq (l := l' ++ [k]) (r := r) (t := key) (by
        intro x hx
        rcases List.mem_append.mp hx with hx | hx
        · exact hl' x hx
        · have := hl x (List.mem_append_right _ hx)
          simp only [List.mem_singleton] at hx
          omega) (fun x hx => Nat.le_of_lt (hr x hx)) hsmall
      simp only [hpos]
      cases r with
      | nil => simp
      | cons x r =>
        have := hr x (by simp)
        rw [if_neg]
        rintro ⟨_, h⟩
        rw [List.getD_eq_getElem?_getD, List.getElem?_append_right (Nat.le_refl _)] at h
        simp at h
        omega

/-! ## Ranges -/

/-- `lo ≤ k`, with no lower bound at the left edge. -/
def AboveLo : Option Nat → Nat → Prop
  | none, _ => True
  | some l, k => l ≤ k

/-- `lo < k`. -/
def StrictLo : Option Nat → Nat → Prop
  | none, _ => True
  | some l, k => l < k

/-- `k < hi`, with no upper bound at the right edge. -/
def BelowHi : Option Nat → Nat → Prop
  | none, _ => True
  | some h, k => k < h

/-- The half-open range `[lo, hi)` of a subtree. -/
def InRange (lo hi : Option Nat) (k : Nat) : Prop := AboveLo lo k ∧ BelowHi hi k

/-- Where a separator may lie: strictly above `lo`, so no child range is empty. -/
def Between (lo hi : Option Nat) (k : Nat) : Prop := StrictLo lo k ∧ BelowHi hi k

theorem StrictLo.above {lo : Option Nat} {k : Nat} (h : StrictLo lo k) : AboveLo lo k := by
  cases lo with
  | none => trivial
  | some l => exact Nat.le_of_lt h

theorem StrictLo.trans {lo : Option Nat} {a b : Nat} (h : StrictLo lo a) (hab : a ≤ b) :
    StrictLo lo b := by
  cases lo with
  | none => trivial
  | some l => exact Nat.lt_of_lt_of_le h hab

theorem AboveLo.strict {lo : Option Nat} {a b : Nat} (h : AboveLo lo a) (hab : a < b) :
    StrictLo lo b := by
  cases lo with
  | none => trivial
  | some l => exact Nat.lt_of_le_of_lt h hab

theorem BelowHi.trans {hi : Option Nat} {a b : Nat} (h : BelowHi hi b) (hab : a ≤ b) :
    BelowHi hi a := by
  cases hi with
  | none => trivial
  | some u => exact Nat.lt_of_le_of_lt hab h

/-- A range inside a range. -/
theorem InRange.mono {lo hi lo' hi' : Option Nat} {k : Nat} (h : InRange lo' hi' k)
    (hlo : ∀ x, AboveLo lo' x → AboveLo lo x) (hhi : ∀ x, BelowHi hi' x → BelowHi hi x) :
    InRange lo hi k :=
  ⟨hlo k h.1, hhi k h.2⟩

/-! ## The invariant -/

/-- The children of an inner node with separators `ks`, each in its range. -/
def Children (P : Option Nat → Option Nat → BNode → Prop) :
    Option Nat → Option Nat → List Nat → List BNode → Prop
  | lo, hi, [], [c] => P lo hi c
  | lo, hi, k :: ks, c :: cs => P lo (some k) c ∧ Between lo hi k ∧ Children P (some k) hi ks cs
  | _, _, _, _ => False

/-- A subtree of height `h` responsible for `[lo, hi)`; at rest no node is full. -/
def Ordered (order : Nat) : Nat → Option Nat → Option Nat → BNode → Prop
  | 0, lo, hi, .leaf l =>
    l.keys.Pairwise (· < ·) ∧ (∀ k ∈ l.keys, InRange lo hi k) ∧ l.keys.length ≤ order - 2
  | h + 1, lo, hi, .inner ks cs => Children (Ordered order h) lo hi ks cs ∧ ks.length ≤ order - 2
  | _, _, _, _ => False

section Children

variable {P : Option Nat → Option Nat → BNode → Prop}

theorem Children.length {ks : List Nat} : ∀ {lo hi : Option Nat} {cs : List BNode},
    Children P lo hi ks cs → cs.length = ks.length + 1 := by
  induction ks with
  | nil =>
    intro lo hi cs h
    match cs, h with
    | [c], _ => rfl
  | cons k ks ih =>
    intro lo hi cs h
    match cs, h with
    | c :: cs, h => simp [ih h.2.2]

theorem Children.keys_between {ks : List Nat} : ∀ {lo hi : Option Nat} {cs : List BNode},
    Children P lo hi ks cs → ∀ k ∈ ks, Between lo hi k := by
  induction ks with
  | nil => intro lo hi cs _ k hk; cases hk
  | cons s ks ih =>
    intro lo hi cs h k hk
    match cs, h with
    | c :: cs, h =>
      rcases List.mem_cons.mp hk with rfl | hk
      · exact h.2.1
      · have := ih h.2.2 k hk
        exact ⟨h.2.1.1.trans (Nat.le_of_lt this.1), this.2⟩

theorem Children.keys_sorted {ks : List Nat} : ∀ {lo hi : Option Nat} {cs : List BNode},
    Children P lo hi ks cs → ks.Pairwise (· < ·) := by
  induction ks with
  | nil => intro lo hi cs _; exact List.Pairwise.nil
  | cons s ks ih =>
    intro lo hi cs h
    match cs, h with
    | c :: cs, h =>
      rw [List.pairwise_cons]
      exact ⟨fun k hk => (h.2.2.keys_between k hk).1, ih h.2.2⟩

/-- Every child has a range inside the node's. -/
theorem Children.mem {ks : List Nat} : ∀ {lo hi : Option Nat} {cs : List BNode},
    Children P lo hi ks cs → ∀ c ∈ cs, ∃ lo' hi', P lo' hi' c ∧
      (∀ x, AboveLo lo' x → AboveLo lo x) ∧ (∀ x, BelowHi hi' x → BelowHi hi x) := by
  induction ks with
  | nil =>
    intro lo hi cs h c hc
    match cs, h with
    | [c'], h =>
      simp only [List.mem_singleton] at hc
      subst hc
      exact ⟨lo, hi, h, fun _ h => h, fun _ h => h⟩
  | cons s ks ih =>
    intro lo hi cs h c hc
    match cs, h with
    | c' :: cs, h =>
      rcases List.mem_cons.mp hc with rfl | hc
      · exact ⟨lo, some s, h.1, fun _ h => h, fun x hx => h.2.1.2.trans (Nat.le_of_lt hx)⟩
      · obtain ⟨lo', hi', hp, hlo, hhi⟩ := ih h.2.2 c hc
        exact ⟨lo', hi', hp, fun x hx => (h.2.1.1.trans (hlo x hx)).above, hhi⟩

/-- The child responsible for `key`, and how to put its replacement back. -/
structure Focus (P : Option Nat → Option Nat → BNode → Prop) (lo hi : Option Nat) (ks : List Nat)
    (cs : List BNode) (key : Nat) (l r : List Nat) (cl : List BNode) (c : BNode) (cr : List BNode)
    (lo' hi' : Option Nat) : Prop where
  keys : ks = l ++ r
  children : cs = cl ++ c :: cr
  length : cl.length = l.length
  left : ∀ k ∈ l, k ≤ key
  right : ∀ k ∈ r, key < k
  child : P lo' hi' c
  range : InRange lo' hi' key
  above : ∀ k ∈ l, ∀ p, StrictLo lo' p → k < p
  below : ∀ k ∈ r, ∀ p, BelowHi hi' p → p < k
  lo_mono : ∀ p, StrictLo lo' p → StrictLo lo p
  hi_mono : ∀ p, BelowHi hi' p → BelowHi hi p
  left_nodes : ∀ x ∈ cl, ∃ a b, P a (some b) x ∧ b ≤ key
  right_nodes : ∀ x ∈ cr, ∃ a b, P (some a) b x ∧ key < a
  set : ∀ c', P lo' hi' c' → Children P lo hi ks (cl ++ c' :: cr)
  split : ∀ p c₁ c₂, Between lo' hi' p → P lo' (some p) c₁ → P (some p) hi' c₂ →
    Children P lo hi (l ++ p :: r) (cl ++ c₁ :: c₂ :: cr)

/-- Nodes to the right of a separator start at or above it. -/
theorem Children.right_nodes {ks : List Nat} : ∀ {s : Nat} {hi : Option Nat} {cs : List BNode},
    Children P (some s) hi ks cs → ∀ x ∈ cs, ∃ a b, P (some a) b x ∧ s ≤ a := by
  induction ks with
  | nil =>
    intro s hi cs h x hx
    match cs, h with
    | [c], h =>
      simp only [List.mem_singleton] at hx
      subst hx
      exact ⟨s, hi, h, Nat.le_refl _⟩
  | cons k ks ih =>
    intro s hi cs h x hx
    match cs, h with
    | c :: cs, h =>
      rcases List.mem_cons.mp hx with rfl | hx
      · exact ⟨s, some k, h.1, Nat.le_refl _⟩
      · obtain ⟨a, b, hp, ha⟩ := ih h.2.2 x hx
        exact ⟨a, b, hp, Nat.le_trans (Nat.le_of_lt h.2.1.1) ha⟩

/-- **Zipper.**  A key in range has exactly one responsible child. -/
theorem Children.focus {ks : List Nat} {key : Nat} : ∀ {lo hi : Option Nat} {cs : List BNode},
    Children P lo hi ks cs → InRange lo hi key →
    ∃ l r cl c cr lo' hi', Focus P lo hi ks cs key l r cl c cr lo' hi' := by
  induction ks with
  | nil =>
    intro lo hi cs h hk
    match cs, h with
    | [c], h =>
      refine ⟨[], [], [], c, [], lo, hi, rfl, rfl, rfl, by simp, by simp, h, hk, by simp, by simp,
        fun _ h => h, fun _ h => h, by simp, by simp, fun c' hc' => hc', ?_⟩
      intro p c₁ c₂ hp h₁ h₂
      exact ⟨h₁, hp, h₂⟩
  | cons k ks ih =>
    intro lo hi cs h hk
    match cs, h with
    | c :: cs, ⟨hc, hb, hrest⟩ =>
      by_cases hlt : key < k
      · -- left of every separator: the first child
        refine ⟨[], k :: ks, [], c, cs, lo, some k, rfl, rfl, rfl, by simp, ?_, hc, ⟨hk.1, hlt⟩,
          by simp, ?_, fun _ h => h, fun p hp => hb.2.trans (Nat.le_of_lt hp), by simp, ?_,
          fun c' hc' => ⟨hc', hb, hrest⟩, ?_⟩
        · intro x hx
          rcases List.mem_cons.mp hx with rfl | hx
          · exact hlt
          · exact Nat.lt_trans hlt (hrest.keys_between x hx).1
        · intro x hx p hp
          rcases List.mem_cons.mp hx with rfl | hx
          · exact hp
          · exact Nat.lt_trans hp (hrest.keys_between x hx).1
        · intro x hx
          obtain ⟨a, b, hp, ha⟩ := hrest.right_nodes x hx
          exact ⟨a, b, hp, Nat.lt_of_lt_of_le hlt ha⟩
        · intro p c₁ c₂ hp h₁ h₂
          exact ⟨h₁, ⟨hp.1, hb.2.trans (Nat.le_of_lt hp.2)⟩, h₂, ⟨hp.2, hb.2⟩, hrest⟩
      · -- at or right of the first separator: a later child
        have hle : k ≤ key := Nat.not_lt.mp hlt
        obtain ⟨l, r, cl, d, cr, lo', hi', F⟩ := ih hrest ⟨hle, hk.2⟩
        refine ⟨k :: l, r, c :: cl, d, cr, lo', hi', by rw [F.keys]; rfl, by rw [F.children]; rfl,
          by simp [F.length], ?_, F.right, F.child, F.range, ?_, F.below, ?_, F.hi_mono, ?_,
          F.right_nodes, fun c' hc' => ⟨hc, hb, F.set c' hc'⟩, ?_⟩
        · intro x hx
          rcases List.mem_cons.mp hx with rfl | hx
          · exact hle
          · exact F.left x hx
        · intro x hx p hp
          rcases List.mem_cons.mp hx with rfl | hx
          · exact F.lo_mono p hp
          · exact F.above x hx p hp
        · intro p hp
          exact hb.1.trans (Nat.le_of_lt (F.lo_mono p hp))
        · intro x hx
          rcases List.mem_cons.mp hx with rfl | hx
          · exact ⟨lo, k, hc, hle⟩
          · exact F.left_nodes x hx
        · intro p c₁ c₂ hp h₁ h₂
          exact ⟨hc, hb, F.split p c₁ c₂ hp h₁ h₂⟩

/-- The code descends to the child in focus. -/
theorem Focus.childIndex {lo hi : Option Nat} {ks : List Nat} {cs : List BNode} {key : Nat}
    {l r : List Nat} {cl : List BNode} {c : BNode} {cr : List BNode} {lo' hi' : Option Nat}
    (F : Focus P lo hi ks cs key l r cl c cr lo' hi') (hs : ks.Pairwise (· < ·))
    (hsmall : ks.length ≤ 2 ^ 30) : childIndex ks key = cl.length := by
  have hk := F.keys
  subst hk
  rw [F.length]
  exact childIndex_eq hs F.left F.right hsmall

/-- A key promoted out of the focused child belongs right behind its left separators. -/
theorem Focus.lowerBound {lo hi : Option Nat} {ks : List Nat} {cs : List BNode} {key : Nat}
    {l r : List Nat} {cl : List BNode} {c : BNode} {cr : List BNode} {lo' hi' : Option Nat}
    (F : Focus P lo hi ks cs key l r cl c cr lo' hi') {p : Nat} (hp : Between lo' hi' p)
    (hsmall : ks.length ≤ 2 ^ 30) : keyLowerBound ks p = l.length := by
  rw [F.keys] at hsmall ⊢
  exact keyLowerBound_eq (fun k hk => F.above k hk p hp.1)
    (fun k hk => Nat.le_of_lt (F.below k hk p hp.2)) hsmall

/-- Cutting the children at a separator. -/
theorem Children.cut {l r : List Nat} {p : Nat} : ∀ {lo hi : Option Nat} {cs : List BNode},
    Children P lo hi (l ++ p :: r) cs →
    Children P lo (some p) l (cs.take (l.length + 1)) ∧
      Children P (some p) hi r (cs.drop (l.length + 1)) ∧ Between lo hi p := by
  induction l with
  | nil =>
    intro lo hi cs h
    match cs, h with
    | c :: cs, ⟨hc, hb, hrest⟩ => exact ⟨hc, hrest, hb⟩
  | cons k l ih =>
    intro lo hi cs h
    match cs, h with
    | c :: cs, ⟨hc, hb, hrest⟩ =>
      obtain ⟨h1, h2, h3⟩ := ih hrest
      exact ⟨⟨hc, ⟨hb.1, h3.1⟩, h1⟩, h2, ⟨hb.1.trans (Nat.le_of_lt h3.1), h3.2⟩⟩

end Children

end Ticketing
