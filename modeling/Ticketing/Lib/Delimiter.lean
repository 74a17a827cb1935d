import Mathlib.Data.List.Infix
import Mathlib.Data.List.Nodup

/-!
# Texts cut at a delimiter

A delimiter whose symbols are all different cannot overlap itself.  Bodies that do not contain it
come back when their concatenation is cut at each of its occurrences.

* `splitDelim` — the cut, in one pass; `splitDelim_bodies`.
* `scan` — how much of the delimiter has been matched; `scan_contains`, `scan_some`.
* `Harmless`, `Neutral`, `Sealed`, `Intact` — pieces of text that can stand in a body whatever came
  before.
-/

set_option autoImplicit false

section Delimiter

variable {α : Type} [DecidableEq α]

/-! ## Matching -/

/-- How many symbols of the delimiter are matched after one more symbol. -/
def matchStep (d : List α) (k : Nat) (a : α) : Nat :=
  if d[k]? = some a then k + 1 else if d.head? = some a then 1 else 0

/-- How many are matched after a text; `none` when the delimiter has been completed. -/
def scan (d : List α) : Nat → List α → Option Nat
  | k, [] => some k
  | k, a :: l => if matchStep d k a = d.length then none else scan d (matchStep d k a) l

variable {d : List α}

theorem scan_append (k : Nat) (l m : List α) :
    scan d k (l ++ m) = (scan d k l).bind fun j => scan d j m := by
  induction l generalizing k with
  | nil => rfl
  | cons a l ih =>
    simp only [List.cons_append, scan]
    split
    · rfl
    · exact ih _

theorem matchStep_le (k : Nat) (a : α) : matchStep d k a ≤ d.length := by
  unfold matchStep
  split
  · rename_i h
    exact (List.getElem?_eq_some_iff.mp h).1
  · split
    · rename_i h
      exact List.length_pos_of_ne_nil (by rintro rfl; cases h)
    · exact Nat.zero_le _

theorem scan_lt {k j : Nat} {l : List α} (hk : k < d.length) (h : scan d k l = some j) :
    j < d.length := by
  induction l generalizing k with
  | nil =>
    cases h
    exact hk
  | cons a l ih =>
    simp only [scan] at h
    split at h
    · cases h
    · rename_i hne
      exact ih (Nat.lt_of_le_of_ne (matchStep_le k a) hne) h

/-- What has been matched is the end of what has been read. -/
theorem matchStep_suffix (k : Nat) (a : α) : d.take (matchStep d k a) <:+ d.take k ++ [a] := by
  unfold matchStep
  split
  · rename_i h
    rw [List.take_add_one, h]
    exact List.suffix_rfl
  · split
    · rename_i h
      cases d with
      | nil => cases h
      | cons b d =>
        cases h
        exact List.suffix_append _ _
    · rw [List.take_zero]
      exact List.nil_suffix

theorem scan_some {k j : Nat} {l : List α} (h : scan d k l = some j) :
    d.take j <:+ d.take k ++ l := by
  induction l generalizing k with
  | nil =>
    cases h
    rw [List.append_nil]
  | cons a l ih =>
    simp only [scan] at h
    split at h
    · cases h
    · obtain ⟨t, ht⟩ := matchStep_suffix (d := d) k a
      have hl := ih h
      rw [List.append_cons, ← ht, List.append_assoc]
      exact hl.trans (List.suffix_append _ _)

/-- From any point within the delimiter, the rest of it completes it. -/
theorem scan_drop : ∀ n k, k + n = d.length → 0 < n → scan d k (d.drop k) = none := by
  intro n
  induction n with
  | zero =>
    intro k _ h
    exact absurd h (Nat.lt_irrefl 0)
  | succ n ih =>
    intro k hk _
    have hlt : k < d.length := by omega
    have hstep : matchStep d k d[k] = k + 1 := by
      rw [matchStep, if_pos (List.getElem?_eq_getElem hlt)]
    rw [List.drop_eq_getElem_cons hlt]
    simp only [scan, hstep]
    split
    · rfl
    · exact ih (k + 1) (by omega) (by omega)

/-- A text with the delimiter in it completes it, whatever was matched before. -/
theorem scan_contains (hd : d.Nodup) (hne : d ≠ []) {k : Nat} {l : List α} (hk : k < d.length)
    (h : d <:+: l) : scan d k l = none := by
  obtain ⟨s, t, rfl⟩ := h
  rw [scan_append, scan_append]
  cases hs : scan d k s with
  | none => rfl
  | some j =>
    have hj := scan_lt hk hs
    have hdelim : scan d j d = none := by
      obtain ⟨a, d', rfl⟩ := List.exists_cons_of_ne_nil hne
      -- the first symbol occurs nowhere else in the delimiter
      have hstep : matchStep (a :: d') j a = 1 := by
        unfold matchStep
        split
        · rename_i hja
          have hzero : (a :: d')[0]? = some a := rfl
          rw [← hzero] at hja
          by_contra hj1
          exact List.nodup_iff_getElem?_ne_getElem?.mp hd 0 j (by omega) hj hja.symm
        · exact if_pos rfl
      have hrest := scan_drop (d := a :: d') d'.length 1 (Nat.add_comm _ _)
      simp only [scan, hstep]
      split
      · rfl
      · rename_i hlen
        exact hrest (by rw [List.length_cons] at hlen; omega)
    simp only [Option.bind_some, hdelim, Option.bind_none]

/-- A text leaves the delimiter incomplete from the start exactly when it does not contain it. -/
theorem not_infix_of_scan (hd : d.Nodup) (hne : d ≠ []) {j : Nat} {l : List α}
    (h : scan d 0 l = some j) : ¬ d <:+: l := by
  intro hl
  rw [scan_contains hd hne (List.length_pos_of_ne_nil hne) hl] at h
  cases h

end Delimiter

/-! ## The cut -/

section Split

variable {α : Type} [DecidableEq α]

/-- Cut a text at each occurrence of the delimiter: the completed segments and the rest.  `acc` is
the segment under construction, and the next `k` symbols belong to a delimiter already seen. -/
def splitDelim (d : List α) : Nat → List α → List α → List (List α) × List α
  | _, acc, [] => ([], acc)
  | k + 1, acc, _ :: rest => splitDelim d k acc rest
  | 0, acc, a :: rest =>
    if d <+: a :: rest then
      (acc :: (splitDelim d (d.length - 1) [] rest).1, (splitDelim d (d.length - 1) [] rest).2)
    else splitDelim d 0 (acc ++ [a]) rest

variable {d : List α}

theorem splitDelim_skip (l : List α) (acc rest : List α) :
    splitDelim d l.length acc (l ++ rest) = splitDelim d 0 acc rest := by
  induction l with
  | nil => rfl
  | cons a l ih => exact ih

omit [DecidableEq α] in
/-- A delimiter with different symbols does not begin inside a body and end behind it. -/
theorem prefix_of_prefix_append (hd : d.Nodup) {a : α} {body rest : List α}
    (h : d <+: a :: body ++ (d ++ rest)) : d <+: a :: body := by
  rcases List.prefix_or_prefix_of_prefix h (List.prefix_append _ _) with h | ⟨p, rfl⟩
  · exact h
  · rw [List.prefix_append_right_inj] at h
    cases p with
    | nil => simp
    | cons b p =>
      -- the first symbol would occur twice
      obtain ⟨t, ht⟩ := h
      simp only [List.cons_append, List.cons.injEq] at ht
      rw [ht.1, List.cons_append, List.nodup_cons] at hd
      exact absurd (List.mem_append_right _ List.mem_cons_self) hd.1

theorem splitDelim_body (hd : d.Nodup) (hne : d ≠ []) (body acc rest : List α)
    (h : ¬ d <:+: body) :
    splitDelim d 0 acc (body ++ (d ++ rest)) =
      ((acc ++ body) :: (splitDelim d 0 [] rest).1, (splitDelim d 0 [] rest).2) := by
  induction body generalizing acc with
  | nil =>
    obtain ⟨a, d', rfl⟩ := List.exists_cons_of_ne_nil hne
    have hskip := splitDelim_skip (d := a :: d') d' [] rest
    simp only [List.nil_append, List.cons_append, splitDelim, List.append_nil]
    rw [if_pos (by rw [← List.cons_append]; exact List.prefix_append _ _), List.length_cons,
      Nat.add_sub_cancel, hskip]
  | cons a body ih =>
    simp only [List.cons_append, splitDelim]
    rw [if_neg]
    · rw [ih _ (fun hb => h (hb.trans (List.suffix_cons a body).isInfix)), List.append_assoc]
      rfl
    · intro hp
      exact h (prefix_of_prefix_append hd hp).isInfix

/-- **Bodies without the delimiter** come back when the bytes are cut. -/
theorem splitDelim_bodies (hd : d.Nodup) (hne : d ≠ []) {bodies : List (List α)}
    (h : ∀ body ∈ bodies, ¬ d <:+: body) :
    splitDelim d 0 [] (bodies.flatMap fun body => body ++ d) = (bodies, []) := by
  induction bodies with
  | nil => rfl
  | cons body bodies ih =>
    rw [List.flatMap_cons, List.append_assoc,
      splitDelim_body hd hne _ _ _ (h body List.mem_cons_self),
      ih (fun b hb => h b (List.mem_cons_of_mem _ hb))]
    rfl

end Split

/-! ## Pieces of a body -/

section Pieces

variable {α : Type} [DecidableEq α] {d : List α}

/-- Wherever the piece begins, short of a delimiter that wants only its last symbol, it ends so. -/
def Harmless (d l : List α) : Prop :=
  ∀ k, k + 1 < d.length → ∃ j, j + 1 < d.length ∧ scan d k l = some j

/-- After the piece nothing is matched, unless before it only the last symbol was wanted. -/
def Neutral (d l : List α) : Prop := ∀ k, k + 1 < d.length → scan d k l = some 0

/-- After the piece nothing is matched, whatever was matched before. -/
def Sealed (d l : List α) : Prop := ∀ k, k < d.length → scan d k l = some 0

instance (d l : List α) : Decidable (Neutral d l) :=
  decidable_of_iff (∀ k < d.length - 1, scan d k l = some 0)
    ⟨fun h k hk => h k (by omega), fun h k hk => h k (by omega)⟩

instance (d l : List α) : Decidable (Sealed d l) :=
  decidable_of_iff (∀ k < d.length, scan d k l = some 0) Iff.rfl

instance (d l : List α) : Decidable (Harmless d l) :=
  decidable_of_iff (∀ k < d.length - 1, ∃ j < d.length - 1, scan d k l = some j)
    ⟨fun h k hk => (h k (by omega)).imp fun j hj => ⟨by omega, hj.2⟩,
      fun h k hk => (h k (by omega)).imp fun j hj => ⟨by omega, hj.2⟩⟩

theorem Neutral.harmless {l : List α} (hlen : 1 < d.length) (h : Neutral d l) : Harmless d l :=
  fun k hk => ⟨0, hlen, h k hk⟩

theorem Sealed.neutral {l : List α} (h : Sealed d l) : Neutral d l :=
  fun k hk => h k (by omega)

theorem Harmless.nil : Harmless d [] := fun k hk => ⟨k, hk, rfl⟩

theorem Harmless.append {l m : List α} (hl : Harmless d l) (hm : Harmless d m) :
    Harmless d (l ++ m) := by
  intro k hk
  obtain ⟨j, hj, hscan⟩ := hl k hk
  obtain ⟨i, hi, hscan'⟩ := hm j hj
  exact ⟨i, hi, by rw [scan_append, hscan, Option.bind_some, hscan']⟩

theorem Harmless.neutral {l m : List α} (hl : Harmless d l) (hm : Neutral d m) :
    Neutral d (l ++ m) := by
  intro k hk
  obtain ⟨j, hj, hscan⟩ := hl k hk
  rw [scan_append, hscan, Option.bind_some, hm j hj]

theorem Harmless.flatten {ls : List (List α)} (h : ∀ l ∈ ls, Harmless d l) :
    Harmless d ls.flatten := by
  induction ls with
  | nil => exact .nil
  | cons l ls ih =>
    exact (h l List.mem_cons_self).append (ih fun m hm => h m (List.mem_cons_of_mem _ hm))

/-- A piece that does not complete the delimiter. -/
def Intact (d l : List α) : Prop :=
  ∀ k, k + 1 < d.length → ∃ j, j < d.length ∧ scan d k l = some j

theorem Harmless.intact {l : List α} (h : Harmless d l) : Intact d l :=
  fun k hk => (h k hk).imp fun j hj => ⟨by omega, hj.2⟩

theorem Harmless.append_intact {l m : List α} (hl : Harmless d l) (hm : Intact d m) :
    Intact d (l ++ m) := by
  intro k hk
  obtain ⟨j, hj, hscan⟩ := hl k hk
  obtain ⟨i, hi, hscan'⟩ := hm j hj
  exact ⟨i, hi, by rw [scan_append, hscan, Option.bind_some, hscan']⟩

/-- However it is cut short, an intact piece stays so. -/
theorem Intact.cut {l m : List α} (h : Intact d m) (hl : l <+: m) : Intact d l := by
  obtain ⟨t, rfl⟩ := hl
  intro k hk
  obtain ⟨i, -, hscan⟩ := h k hk
  rw [scan_append] at hscan
  obtain ⟨j, hj, -⟩ := Option.bind_eq_some_iff.mp hscan
  exact ⟨j, scan_lt (by omega) hj, hj⟩

theorem Intact.neutral {l m : List α} (hl : Intact d l) (hm : Sealed d m) : Neutral d (l ++ m) := by
  intro k hk
  obtain ⟨j, hj, hscan⟩ := hl k hk
  rw [scan_append, hscan, Option.bind_some, hm j hj]

/-- An intact body does not contain the delimiter. -/
theorem Intact.absent {l : List α} (hd : d.Nodup) (hlen : 1 < d.length) (h : Intact d l) :
    ¬ d <:+: l := by
  obtain ⟨j, -, hscan⟩ := h 0 hlen
  exact not_infix_of_scan hd (List.ne_nil_of_length_pos (by omega)) hscan

/-- One symbol after a neutral piece. -/
theorem Neutral.symbol {c : List α} (hlen : 2 < d.length) (hc : Neutral d c) (a : α) :
    Harmless d (c ++ [a]) := by
  intro k hk
  have hstep : matchStep d 0 a ≤ 1 := by
    unfold matchStep
    split
    · exact Nat.le_refl 1
    · split <;> omega
  refine ⟨matchStep d 0 a, by omega, ?_⟩
  rw [scan_append, hc k hk, Option.bind_some, scan, if_neg (by omega), scan]

/-- Without the last symbol but one, a text cannot come close to the end of the delimiter. -/
theorem harmless_of_not_mem {l : List α} {a : α} (ha : d[d.length - 2]? = some a) (h : a ∉ l) :
    Harmless d l := by
  induction l with
  | nil => exact .nil
  | cons b l ih =>
    rw [List.mem_cons, not_or] at h
    intro k hk
    have hstep : matchStep d k b + 1 < d.length := by
      unfold matchStep
      split
      · rename_i hb
        by_contra hlast
        have hk2 : k = d.length - 2 := by omega
        rw [hk2, ha, Option.some.injEq] at hb
        exact h.1 hb
      · split
        · rename_i hb
          by_contra hlast
          rw [List.head?_eq_getElem?, show 0 = d.length - 2 by omega, ha, Option.some.injEq] at hb
          exact h.1 hb
        · omega
    obtain ⟨j, hj, hscan⟩ := ih h.2 (matchStep d k b) hstep
    refine ⟨j, hj, ?_⟩
    rw [scan, if_neg (by omega), hscan]

/-- Without the last symbol a text cannot complete the delimiter. -/
theorem scan_of_not_mem {l : List α} {a : α} (ha : d[d.length - 1]? = some a) (h : a ∉ l) :
    ∀ {k}, k < d.length → ∃ j, j < d.length ∧ scan d k l = some j := by
  induction l with
  | nil => exact fun hk => ⟨_, hk, rfl⟩
  | cons b l ih =>
    intro k hk
    rw [List.mem_cons, not_or] at h
    have hstep : matchStep d k b ≠ d.length := by
      unfold matchStep
      split
      · rename_i hb
        intro hlen
        rw [show k = d.length - 1 by omega, ha, Option.some.injEq] at hb
        exact h.1 hb
      · split
        · rename_i hb
          intro hlen
          rw [List.head?_eq_getElem?, show 0 = d.length - 1 by omega, ha, Option.some.injEq] at hb
          exact h.1 hb
        · omega
    obtain ⟨j, hj, hscan⟩ := ih h.2 (Nat.lt_of_le_of_ne (matchStep_le k b) hstep)
    exact ⟨j, hj, by rw [scan, if_neg hstep, hscan]⟩

/-- A field without the last symbol, before a sealed piece. -/
theorem Sealed.field {f c : List α} {a : α} (ha : d[d.length - 1]? = some a) (hf : a ∉ f)
    (hc : Sealed d c) : Neutral d (f ++ c) := by
  intro k hk
  obtain ⟨j, hj, hscan⟩ := scan_of_not_mem ha hf (by omega : k < d.length)
  rw [scan_append, hscan, Option.bind_some, hc j hj]

/-- A field without the last symbol, after a neutral piece, that does not end in all the delimiter
but its last symbol. -/
theorem Neutral.field {f c : List α} {a : α} (ha : d[d.length - 1]? = some a) (hf : a ∉ f)
    (hend : ¬ d.dropLast <:+ f) (hc : Neutral d c) : Harmless d (c ++ f) := by
  intro k hk
  obtain ⟨j, hj, hscan⟩ := scan_of_not_mem ha hf (by omega : 0 < d.length)
  refine ⟨j, ?_, by rw [scan_append, hc k hk, Option.bind_some, hscan]⟩
  by_contra hlast
  have hsuffix := scan_some hscan
  rw [List.take_zero, List.nil_append, show j = d.length - 1 by omega, ← List.dropLast_eq_take]
    at hsuffix
  exact hend hsuffix

end Pieces
