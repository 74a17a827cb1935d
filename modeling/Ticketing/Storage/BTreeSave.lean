import Ticketing.Storage.BTreeFailures
import Ticketing.Storage.Io

/-!
# Saving an index when stdio fails (`btree_save`)

The four `fwrite`s of the header and the final `fclose` are not checked, those of the nodes are.
A stream takes what its `fwrite`s store, and `fclose` brings a prefix of it to the file.

* `fwrite`, `fclose`, `writeNodeTo`, `btreeSaveTo` — saving, where every call may fail.
* `nodeBuffers`, `StoresAll` — the buffers that are written for a tree; whether all of them are stored.
* `btreeOpen_take` — a file of which the end is missing is not read.
* `btreeSearch_of_shape` — trees of the same shape stand for the same mapping.
* `save_reports_iff` — when every lost write is reported.
-/

set_option autoImplicit false

namespace Ticketing

open Bytes

/-! ## Streams -/

/-- A stream that is open for writing: what it has taken, and how the next calls end. -/
structure OutStream where
  bytes : Bytes
  io : IoScript

/-- `fwrite`; the flag says that all items were stored. -/
def fwrite (fp : OutStream) (buf : Bytes) : OutStream × Bool :=
  (⟨(osWrite fp.bytes buf (fp.io 0)).1, fp.io.drop 1⟩, (osWrite fp.bytes buf (fp.io 0)).2)

/-- Only call `i` fails, after `n` bytes. -/
def IoScript.failAt (i n : Nat) : IoScript := fun j => if j = i then .short n else .ok

/-- `fclose`: the file, with what its flush brings there. -/
def fclose (fp : OutStream) : Bytes :=
  match fp.io 0 with
  | .ok => fp.bytes
  | .short n => fp.bytes.take n

/-- The next call, unless this one returns -1. -/
def andThen (r : OutStream × Bool) (next : OutStream → OutStream × Bool) : OutStream × Bool :=
  if r.2 then next r.1 else r

mutual

/-- `write_node`; the flag is false where it returns -1. -/
def writeNodeTo : BNode → OutStream → OutStream × Bool
  | .leaf l, fp =>
    andThen (fwrite fp (toLE 4 1)) fun fp =>
    andThen (fwrite fp (toLE 4 l.keys.length)) fun fp =>
    if l.keys.length > 0 then
      andThen (fwrite fp (l.keys.flatMap (toLE 4))) fun fp =>
      fwrite fp (l.entries.flatMap fun e => e.2.encode)
    else (fp, true)
  | .inner ks cs, fp =>
    andThen (fwrite fp (toLE 4 0)) fun fp =>
    andThen (fwrite fp (toLE 4 ks.length)) fun fp =>
    andThen (if ks.length > 0 then fwrite fp (ks.flatMap (toLE 4)) else (fp, true)) fun fp =>
    writeChildrenTo cs fp

/-- `write_node` of the children of an inner node. -/
def writeChildrenTo : List BNode → OutStream → OutStream × Bool
  | [], fp => (fp, true)
  | c :: cs, fp => andThen (writeNodeTo c fp) fun fp => writeChildrenTo cs fp

end

/-- `btree_save`: the return value, the tree and the index file, which was `file` before.  The first
call is `fopen`. -/
def btreeSaveTo (io : IoScript) (t : BTree) (file : Bytes) : Int × BTree × Bytes :=
  match io 0 with
  | .short _ => (-1, t, file)
  | .ok =>
    let fp : OutStream := ⟨[], io.drop 1⟩
    let fp := (fwrite fp (toLE 4 BTREE_MAGIC)).1
    let fp := (fwrite fp (toLE 4 t.order)).1
    let fp := (fwrite fp (toLE 4 t.size)).1
    let fp := (fwrite fp (toLE 4 1)).1
    let r := writeNodeTo t.root fp
    if r.2 then (0, { t with dirty := false }, fclose r.1) else (-1, t, fclose r.1)

/-! ## The buffers of a tree -/

mutual

/-- What `write_node` hands to `fwrite`, call by call. -/
def nodeBuffers : BNode → List Bytes
  | .leaf l =>
    toLE 4 1 :: toLE 4 l.keys.length ::
      if l.keys.length > 0 then [l.keys.flatMap (toLE 4), l.entries.flatMap fun e => e.2.encode] else []
  | .inner ks cs =>
    toLE 4 0 :: toLE 4 ks.length ::
      ((if ks.length > 0 then [ks.flatMap (toLE 4)] else []) ++ childBuffers cs)

/-- The same for the children of an inner node. -/
def childBuffers : List BNode → List Bytes
  | [] => []
  | c :: cs => nodeBuffers c ++ childBuffers cs

end

/-- What `btree_save` hands to `fwrite` before the nodes. -/
def headerBuffers (t : BTree) : List Bytes :=
  [toLE 4 BTREE_MAGIC, toLE 4 t.order, toLE 4 t.size, toLE 4 1]

/-- A call that has `len` bytes to bring somewhere brings all of them. -/
def IoResult.Stores (len : Nat) : IoResult → Prop
  | .ok => True
  | .short n => len ≤ n

instance (len : Nat) : (r : IoResult) → Decidable (r.Stores len)
  | .ok => isTrue trivial
  | .short n => inferInstanceAs (Decidable (len ≤ n))

/-- Every buffer is stored by its call. -/
def StoresAll : List Bytes → IoScript → Prop
  | [], _ => True
  | b :: bs, io => (io 0).Stores b.length ∧ StoresAll bs (io.drop 1)

/-- `fwrite`s in a row, up to the first that fails. -/
def writeBuffers : List Bytes → OutStream → OutStream × Bool
  | [], fp => (fp, true)
  | b :: bs, fp => andThen (fwrite fp b) (writeBuffers bs)

theorem osWrite_stores (file buf : Bytes) (r : IoResult) :
    (osWrite file buf r).2 = true ↔ r.Stores buf.length := by
  cases r with
  | ok => exact iff_of_true rfl trivial
  | short n => simp [osWrite, IoResult.Stores]

theorem fwrite_of_stores {fp : OutStream} (buf : Bytes) (h : (fp.io 0).Stores buf.length) :
    fwrite fp buf = (⟨fp.bytes ++ buf, fp.io.drop 1⟩, true) := by
  have hflag : (osWrite fp.bytes buf (fp.io 0)).2 = true := (osWrite_stores _ _ _).mpr h
  rw [fwrite, hflag, osWrite_full hflag]

theorem andThen_assoc (r : OutStream × Bool) (f g : OutStream → OutStream × Bool) :
    andThen (andThen r f) g = andThen r fun fp => andThen (f fp) g := by
  obtain ⟨fp, ok⟩ := r
  cases ok with
  | true => rfl
  | false => rfl

theorem andThen_true (r : OutStream × Bool) : andThen r (fun fp => (fp, true)) = r := by
  obtain ⟨fp, ok⟩ := r
  cases ok with
  | true => rfl
  | false => rfl

theorem writeBuffers_append (bs cs : List Bytes) (fp : OutStream) :
    writeBuffers (bs ++ cs) fp = andThen (writeBuffers bs fp) (writeBuffers cs) := by
  induction bs generalizing fp with
  | nil => rfl
  | cons b bs ih =>
    simp only [List.cons_append, writeBuffers, andThen_assoc]
    exact congrArg _ (funext ih)

mutual

/-- **`write_node` writes its buffers in a row.** -/
theorem writeNodeTo_eq : ∀ (n : BNode) (fp : OutStream),
    writeNodeTo n fp = writeBuffers (nodeBuffers n) fp
  | .leaf l, fp => by
    simp only [writeNodeTo, nodeBuffers, writeBuffers]
    by_cases hk : l.keys.length > 0
    · simp only [if_pos hk, writeBuffers, andThen_true]
    · simp only [if_neg hk, writeBuffers]
  | .inner ks cs, fp => by
    simp only [writeNodeTo, nodeBuffers, writeBuffers, writeChildrenTo_eq cs]
    by_cases hk : ks.length > 0
    · simp only [if_pos hk]
      rfl
    · simp only [if_neg hk]
      rfl

theorem writeChildrenTo_eq : ∀ (cs : List BNode) (fp : OutStream),
    writeChildrenTo cs fp = writeBuffers (childBuffers cs) fp
  | [], _ => rfl
  | c :: cs, fp => by
    simp only [writeChildrenTo, childBuffers, writeBuffers_append, writeNodeTo_eq c,
      writeChildrenTo_eq cs]

end

mutual

theorem flatten_nodeBuffers : ∀ n : BNode, (nodeBuffers n).flatten = writeNode n
  | .leaf l => by
    cases hl : l.entries with
    | nil => simp [nodeBuffers, writeNode, BLeaf.keys, hl]
    | cons e es => simp [nodeBuffers, writeNode, BLeaf.keys, hl]
  | .inner ks cs => by
    cases ks with
    | nil => simp [nodeBuffers, writeNode, flatten_childBuffers cs]
    | cons k ks => simp [nodeBuffers, writeNode, flatten_childBuffers cs]

theorem flatten_childBuffers : ∀ cs : List BNode, (childBuffers cs).flatten = writeChildren cs
  | [] => rfl
  | c :: cs => by
    rw [childBuffers, List.flatten_append, flatten_nodeBuffers c, flatten_childBuffers cs, writeChildren]

end

theorem btreeFile_eq (t : BTree) :
    btreeFile t = (headerBuffers t).flatten ++ (nodeBuffers t.root).flatten := by
  rw [flatten_nodeBuffers]
  simp [btreeFile, headerBuffers]

/-- All buffers stored: the stream has taken all of them. -/
theorem writeBuffers_stored {bs : List Bytes} {fp : OutStream} (h : StoresAll bs fp.io) :
    writeBuffers bs fp = (⟨fp.bytes ++ bs.flatten, fp.io.drop bs.length⟩, true) := by
  induction bs generalizing fp with
  | nil => simp [writeBuffers]
  | cons b bs ih =>
    obtain ⟨hb, hbs⟩ := h
    rw [writeBuffers, fwrite_of_stores b hb, andThen, if_pos rfl, ih hbs]
    simp [Nat.add_comm]

theorem writeBuffers_lost {bs : List Bytes} {fp : OutStream} (h : ¬ StoresAll bs fp.io) :
    (writeBuffers bs fp).2 = false := by
  induction bs generalizing fp with
  | nil => exact absurd trivial h
  | cons b bs ih =>
    rw [writeBuffers, andThen]
    by_cases hb : (fp.io 0).Stores b.length
    · rw [fwrite_of_stores b hb, if_pos rfl]
      exact ih fun hbs => h ⟨hb, hbs⟩
    · have hflag : (fwrite fp b).2 = false :=
        Bool.eq_false_iff.mpr fun hflag => hb ((osWrite_stores _ _ _).mp hflag)
      rw [hflag, if_neg Bool.false_ne_true, hflag]

/-! ## A file without its end -/

theorem fread_extend {n : Nat} {b : Bytes} {r : Bytes × Bytes} (h : fread n b = some r) (x : Bytes) :
    fread n (b ++ x) = some (r.1, r.2 ++ x) := by
  unfold fread at h ⊢
  by_cases hlen : b.length < n
  · rw [if_pos hlen] at h
    cases h
  · rw [if_neg hlen] at h
    cases h
    rw [if_neg (by rw [List.length_append]; omega), List.take_append_of_le_length (by omega),
      List.drop_append_of_le_length (by omega)]

theorem freadU32_extend {b : Bytes} {r : Nat × Bytes} (h : freadU32 b = some r) (x : Bytes) :
    freadU32 (b ++ x) = some (r.1, r.2 ++ x) := by
  rw [freadU32, Option.map_eq_some_iff] at h
  obtain ⟨q, hq, rfl⟩ := h
  rw [freadU32, fread_extend hq x, Option.map_some]

theorem readChildren_extend {read read' : Nat → Bytes → Option (BNode × Nat × Bytes)} {x : Bytes}
    (hread : ∀ addr b r, read addr b = some r → read' addr (b ++ x) = some (r.1, r.2.1, r.2.2 ++ x)) :
    ∀ (n addr : Nat) (b : Bytes) (r : List BNode × Nat × Bytes),
      readChildren read n addr b = some r →
      readChildren read' n addr (b ++ x) = some (r.1, r.2.1, r.2.2 ++ x)
  | 0, _, _, r, h => by
    rw [readChildren, Option.some.injEq] at h
    subst h
    rfl
  | n + 1, addr, b, r, h => by
    rw [readChildren, Option.bind_eq_some_iff] at h
    obtain ⟨q, hq, h⟩ := h
    rw [Option.map_eq_some_iff] at h
    obtain ⟨q', hq', rfl⟩ := h
    rw [readChildren, hread addr b q hq, Option.bind_some, readChildren_extend hread n q.2.1 q.2.2 q' hq',
      Option.map_some]

/-- What `read_node` does on the bytes it reads does not depend on what follows them. -/
theorem readNode_extend (x : Bytes) : ∀ (fuel fuel' addr : Nat) (b : Bytes) (r : BNode × Nat × Bytes),
    fuel ≤ fuel' → readNode fuel addr b = some r →
    readNode fuel' addr (b ++ x) = some (r.1, r.2.1, r.2.2 ++ x)
  | 0, _, _, _, _, _, h => by cases h
  | fuel + 1, fuel' + 1, addr, b, r, hfuel, h => by
    rw [readNode] at h
    simp only [Option.bind_eq_some_iff] at h
    obtain ⟨isLeaf, h1, numKeys, h2, keys, h3, h⟩ := h
    rw [readNode, freadU32_extend h1 x, Option.bind_some, freadU32_extend h2 x, Option.bind_some,
      fread_extend h3 x, Option.bind_some]
    by_cases hleaf : isLeaf.1 ≠ 0
    · rw [if_pos hleaf, Option.map_eq_some_iff] at h
      obtain ⟨values, h4, rfl⟩ := h
      dsimp only
      rw [if_pos hleaf, fread_extend h4 x, Option.map_some]
    · rw [if_neg hleaf, Option.map_eq_some_iff] at h
      obtain ⟨q, h4, rfl⟩ := h
      dsimp only
      rw [if_neg hleaf, readChildren_extend (fun addr b r hr =>
        readNode_extend x fuel fuel' addr b r (by omega) hr) _ _ _ _ h4, Option.map_some]

/-- **A file of which the end is missing is not read.** -/
theorem btreeOpen_take {t : BTree} (h : t.Writable) {n : Nat} (hn : n < (btreeFile t).length) :
    btreeOpen ((btreeFile t).take n) = none := by
  cases hopen : btreeOpen ((btreeFile t).take n) with
  | none => rfl
  | some t' =>
    exfalso
    set b := (btreeFile t).take n with hb
    set x := (btreeFile t).drop n with hx
    have hfile : b ++ x = btreeFile t := List.take_append_drop n _
    have hne : x ≠ [] := by
      rw [hx]
      exact fun hnil => absurd (List.drop_eq_nil_iff.mp hnil) (by omega)
    unfold btreeOpen at hopen
    simp only [Option.bind_eq_some_iff] at hopen
    obtain ⟨magic, h1, order, h2, size, h3, hasRoot, h4, hopen⟩ := hopen
    -- the header is whole, so the reader is at the root
    have hrest : hasRoot.2 ++ x = writeNode t.root ∧ hasRoot.1 = 1 := by
      have e1 := freadU32_extend h1 x
      rw [hfile, btreeFile, freadU32_append (by decide), Option.some.injEq, Prod.mk.injEq] at e1
      have e2 := freadU32_extend h2 x
      rw [← e1.2, freadU32_append h.order, Option.some.injEq, Prod.mk.injEq] at e2
      have e3 := freadU32_extend h3 x
      rw [← e2.2, freadU32_append h.size, Option.some.injEq, Prod.mk.injEq] at e3
      have e4 := freadU32_extend h4 x
      rw [← e3.2, freadU32_append (by decide), Option.some.injEq, Prod.mk.injEq] at e4
      exact ⟨e4.2.symm, e4.1.symm⟩
    by_cases hmagic : magic.1 ≠ BTREE_MAGIC
    · rw [if_pos hmagic] at hopen
      cases hopen
    rw [if_neg hmagic, if_pos (by omega), Option.map_eq_some_iff] at hopen
    obtain ⟨r, hr, -⟩ := hopen
    have hlen : b.length ≤ (btreeFile t).length := by
      rw [← hfile, List.length_append]
      omega
    have hwhole := readNode_extend x _ _ 0 _ r hlen hr
    obtain ⟨n', hread, -⟩ := readNode_writeNode t.root h.root (btreeFile t).length 0 [] (by
      simp only [btreeFile, List.length_append]
      omega)
    rw [List.append_nil, ← hrest.1, hwhole, Option.some.injEq, Prod.mk.injEq, Prod.mk.injEq] at hread
    exact hne (List.append_eq_nil_iff.mp hread.2.2).2

/-! ## Trees of one shape -/

mutual

theorem findLeaf_shape (key : Nat) : ∀ n : BNode,
    findLeaf key n.shape = (findLeaf key n).map fun l => ⟨0, l.entries, none⟩
  | .leaf _ => rfl
  | .inner ks cs => findLeafChild_shape key (childIndex ks key) cs

theorem findLeafChild_shape (key : Nat) : ∀ (i : Nat) (cs : List BNode),
    findLeafChild key i (BNode.shapeList cs) =
      (findLeafChild key i cs).map fun l => ⟨0, l.entries, none⟩
  | _, [] => by simp only [BNode.shapeList, findLeafChild, Option.map_none]
  | 0, c :: _ => findLeaf_shape key c
  | i + 1, _ :: cs => findLeafChild_shape key i cs

end

theorem btreeSearch_shape (t : BTree) (key : Nat) :
    btreeSearch { t with root := t.root.shape } key = btreeSearch t key := by
  unfold btreeSearch findPos
  rw [findLeaf_shape]
  cases findLeaf key t.root with
  | none => rfl
  | some l =>
    have hkeys : BLeaf.keys ⟨0, l.entries, none⟩ = l.keys := rfl
    simp only [Option.map_some, hkeys]
    cases keyFindExact l.keys key with
    | none => rfl
    | some pos => rfl

/-- A search sees neither addresses nor pointers. -/
theorem btreeSearch_of_shape {t t' : BTree} (h : t'.root.shape = t.root.shape) (key : Nat) :
    btreeSearch t' key = btreeSearch t key := by
  have hroot : btreeSearch { t' with root := t'.root.shape } key =
      btreeSearch { t with root := t'.root.shape } key := rfl
  rw [← btreeSearch_shape t', hroot, h, btreeSearch_shape]

/-! ## Saving -/

/-- `btree_save` returns 0 with the dirty flag cleared and a file that opens to a tree for the same
mapping, or it returns -1 with the flag set. -/
def ReportsLoss (io : IoScript) (t : BTree) (file : Bytes) : Prop :=
  let r := btreeSaveTo io t file
  (r.1 = 0 ∧ r.2.1.dirty = false ∧
    ∃ t', btreeOpen r.2.2 = some t' ∧ ∀ key, btreeSearch t' key = btreeSearch t key) ∨
  (r.1 = -1 ∧ r.2.1.dirty = true)

/-- The header's `fwrite`s store all items. -/
def HeaderStored (t : BTree) (io : IoScript) : Prop := StoresAll (headerBuffers t) (io.drop 1)

/-- The nodes' `fwrite`s store all items. -/
def NodesStored (t : BTree) (io : IoScript) : Prop := StoresAll (nodeBuffers t.root) (io.drop 5)

/-- The flush of `fclose` brings everything to the file. -/
def FlushStored (t : BTree) (io : IoScript) : Prop :=
  (io (5 + (nodeBuffers t.root).length)).Stores (btreeFile t).length

/-- Every byte reaches the file; or the tree is dirty, and `fopen` or the `fwrite` of a node fails. -/
def LossChecked (t : BTree) (io : IoScript) : Prop :=
  (io 0 = .ok ∧ HeaderStored t io ∧ NodesStored t io ∧ FlushStored t io) ∨
  (t.dirty = true ∧ (io 0 ≠ .ok ∨ ¬ NodesStored t io))

section Save

variable {io : IoScript} {t : BTree} {file : Bytes}

/-- A failing `fopen` or node: -1, and the tree as it was. -/
theorem btreeSaveTo_failed (file : Bytes) (h : io 0 ≠ .ok ∨ ¬ NodesStored t io) :
    (btreeSaveTo io t file).1 = -1 ∧ (btreeSaveTo io t file).2.1 = t := by
  unfold btreeSaveTo
  cases hopen : io 0 with
  | short n => exact ⟨rfl, rfl⟩
  | ok =>
    have hnodes : ¬ NodesStored t io := h.resolve_left (not_not.mpr hopen)
    have hlost : ∀ fp : OutStream, fp.io = io.drop 5 → (writeNodeTo t.root fp).2 = false := by
      intro fp hfp
      rw [writeNodeTo_eq]
      exact writeBuffers_lost (by rw [hfp]; exact hnodes)
    dsimp only
    rw [hlost _ (by simp only [fwrite, IoScript.drop_drop]), if_neg Bool.false_ne_true]
    exact ⟨rfl, rfl⟩

/-- Otherwise 0, and the flag is cleared, whatever became of the header. -/
theorem btreeSaveTo_done (file : Bytes) (hopen : io 0 = .ok) (hnodes : NodesStored t io) :
    (btreeSaveTo io t file).1 = 0 ∧ (btreeSaveTo io t file).2.1 = { t with dirty := false } := by
  unfold btreeSaveTo
  have hstored : ∀ fp : OutStream, fp.io = io.drop 5 → (writeNodeTo t.root fp).2 = true := by
    intro fp hfp
    rw [writeNodeTo_eq, writeBuffers_stored (by rw [hfp]; exact hnodes)]
  simp only [hopen]
  rw [hstored _ (by simp only [fwrite, IoScript.drop_drop]), if_pos rfl]
  exact ⟨rfl, rfl⟩

/-- With the whole header stored, the file is what the flush lets through of the tree's file. -/
theorem btreeSaveTo_file (hopen : io 0 = .ok) (hheader : HeaderStored t io) (hnodes : NodesStored t io) :
    (btreeSaveTo io t file).2.2 =
      fclose ⟨btreeFile t, io.drop (5 + (nodeBuffers t.root).length)⟩ := by
  obtain ⟨h1, h2, h3, h4, -⟩ := hheader
  unfold btreeSaveTo
  simp only [hopen]
  rw [fwrite_of_stores (toLE 4 BTREE_MAGIC) h1, fwrite_of_stores (toLE 4 t.order) h2,
    fwrite_of_stores (toLE 4 t.size) h3, fwrite_of_stores (toLE 4 1) h4, writeNodeTo_eq,
    writeBuffers_stored (by rw [NodesStored] at hnodes; simpa using hnodes), if_pos rfl]
  simp only [IoScript.drop_drop, List.nil_append]
  rw [btreeFile_eq]
  simp [headerBuffers]

theorem fclose_stored {fp : OutStream} (h : (fp.io 0).Stores fp.bytes.length) : fclose fp = fp.bytes := by
  unfold fclose
  cases hr : fp.io 0 with
  | ok => rfl
  | short n =>
    rw [hr] at h
    exact List.take_of_length_le h

theorem fclose_lost {fp : OutStream} (h : ¬ (fp.io 0).Stores fp.bytes.length) :
    ∃ n, n < fp.bytes.length ∧ fclose fp = fp.bytes.take n := by
  unfold fclose
  cases hr : fp.io 0 with
  | ok => exact absurd (by rw [hr]; trivial) h
  | short n =>
    rw [hr] at h
    exact ⟨n, Nat.lt_of_not_le h, rfl⟩

/-- **A checked loss is reported.** -/
theorem LossChecked.reports (hw : t.Writable) (h : LossChecked t io) : ReportsLoss io t file := by
  rcases h with ⟨hopen, hheader, hnodes, hflush⟩ | ⟨hdirty, hfail⟩
  · obtain ⟨hret, htree⟩ := btreeSaveTo_done file hopen hnodes
    refine Or.inl ⟨hret, by rw [htree], ?_⟩
    rw [btreeSaveTo_file hopen hheader hnodes, fclose_stored (by simpa [FlushStored] using hflush)]
    obtain ⟨n', addr, hread, hshape, -⟩ := btreeOpen_btreeFile hw
    exact ⟨_, hread, btreeSearch_of_shape hshape⟩
  · obtain ⟨hret, htree⟩ := btreeSaveTo_failed file hfail
    exact Or.inr ⟨hret, by rw [htree]; exact hdirty⟩

/-- **Where the header is stored, no other loss is reported.** -/
theorem ReportsLoss.checked (hw : t.Writable)
    (hheader : io 0 = .ok → NodesStored t io → HeaderStored t io) (h : ReportsLoss io t file) :
    LossChecked t io := by
  by_cases hfail : io 0 ≠ .ok ∨ ¬ NodesStored t io
  · obtain ⟨hret, htree⟩ := btreeSaveTo_failed file hfail
    rcases h with ⟨hzero, -⟩ | ⟨-, hdirty⟩
    · rw [hret] at hzero
      cases hzero
    · rw [htree] at hdirty
      exact Or.inr ⟨hdirty, hfail⟩
  · rw [not_or, not_not, not_not] at hfail
    obtain ⟨hopen, hnodes⟩ := hfail
    obtain ⟨hret, -⟩ := btreeSaveTo_done file hopen hnodes
    have hhead := hheader hopen hnodes
    refine Or.inl ⟨hopen, hhead, hnodes, ?_⟩
    rcases h with ⟨-, -, t', hread, -⟩ | ⟨hfailed, -⟩
    · by_contra hflush
      obtain ⟨n, hn, hcut⟩ :=
        @fclose_lost ⟨btreeFile t, io.drop (5 + (nodeBuffers t.root).length)⟩
          (by simpa [FlushStored] using hflush)
      rw [btreeSaveTo_file hopen hhead hnodes, hcut, btreeOpen_take hw hn] at hread
      cases hread
    · rw [hret] at hfailed
      cases hfailed

theorem not_reportsLoss (hret : (btreeSaveTo io t file).1 = 0)
    (hopen : btreeOpen (btreeSaveTo io t file).2.2 = none) : ¬ ReportsLoss io t file := by
  rintro (⟨-, -, t', hread, -⟩ | ⟨hfailed, -⟩)
  · rw [hopen] at hread
    cases hread
  · rw [hret] at hfailed
    cases hfailed

end Save

/-- The trees that the calls lead to fit their file. -/
theorem FullInv.writable {order : Nat} (hint : order < 2 ^ 31) {t : BTree} {m : BtreeMap}
    (h : FullInv order t m) : t.Writable := by
  obtain ⟨height, hord⟩ := h.sized.keys
  have hcount : t.size = t.root.bindings.length % 2 ^ 32 := h.inv.size_eq
  have hsmall := h.inv.small
  refine ⟨by rw [h.order_eq]; omega, ?_, hord.writable (by omega) (fun k hk => hk) h.sized.values⟩
  rw [hcount]
  exact Nat.mod_lt _ (by decide)

/-- **Which lost writes `btree_save` reports.**  For every tree and every pattern of failures: if every
byte reaches the file, or the tree is dirty and `fopen` or the `fwrite` of a node fails, then 0 means
that the file opens to the same mapping, and -1 leaves the tree dirty.  And only then, unless an
unchecked `fwrite` of the header is what failed. -/
theorem save_reports_iff (io : IoScript) (t : BTree) (file : Bytes) (hw : t.Writable) :
    (LossChecked t io → ReportsLoss io t file) ∧
    ((io 0 = .ok → NodesStored t io → HeaderStored t io) →
      (ReportsLoss io t file ↔ LossChecked t io)) :=
  ⟨fun h => h.reports hw, fun hheader => ⟨fun h => h.checked hw hheader, fun h => h.reports hw⟩⟩

/-- The keys of the root are lost, and the save of a dirty tree says so. -/
theorem save_reports_iff_keys :
    ReportsLoss (IoScript.failAt 7 0)
      (btreeInsert allocOk (btreeCreate 3) 1 ⟨0, 0⟩).2 [] := by
  have hfits : (BtOp.insert 1 ⟨0, 0⟩).Fits := ⟨by decide, by decide, by decide⟩
  have hroom : HasRoom allocOk (btreeCreate 3) 1 := fun _ => by decide
  have hinv := ((fullInv_create 3).insert (by decide) hfits hroom).2.1
  refine (save_reports_iff _ _ _ (hinv.writable (by decide))).1 (Or.inr ⟨rfl, Or.inr ?_⟩)
  exact fun h => absurd h.2.2.1 (by decide)

/-- A tree with one key.  The first item of the header is lost, or the last byte in the flush:
`btree_save` returns 0, and the file does not open. -/
theorem lost_header_not_reported :
    let t := (btreeInsert allocOk (btreeCreate 3) 1 ⟨0, 0⟩).2
    let header := btreeSaveTo (IoScript.failAt 1 0) t []
    let flush := btreeSaveTo (IoScript.failAt 9 35) t []
    header.1 = 0 ∧ btreeOpen header.2.2 = none ∧ ¬ ReportsLoss (IoScript.failAt 1 0) t [] ∧
      flush.1 = 0 ∧ btreeOpen flush.2.2 = none ∧ ¬ ReportsLoss (IoScript.failAt 9 35) t [] := by
  intro t header flush
  have hheader : btreeOpen header.2.2 = none := Option.isNone_iff_eq_none.mp (by decide)
  have hflush : btreeOpen flush.2.2 = none := Option.isNone_iff_eq_none.mp (by decide)
  exact ⟨by decide, hheader, not_reportsLoss (by decide) hheader, by decide, hflush,
    not_reportsLoss (by decide) hflush⟩

end Ticketing
