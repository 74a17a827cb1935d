import Ticketing.Lib.LinearProbing
import Ticketing.Lib.ThreadedList
import Ticketing.Storage.Page

/-!
# Buffer pool (`server/storage/buffer_pool.c`)

A page cache in front of the data files: frames, an open-addressed map from `(fd, page_id)` to frame
numbers, and a list of the frames in use with the least recently used one at its tail.  Each function
below is one critical section of `pool->lock`.

* `BufferPool`, `bufferPoolCreate` — the pool.
* `findVictim` — a free frame, or the least recently used one that nobody has pinned; a dirty page is
  written back first, and lost if that write fails.
* `bufferPoolFetch`, `bufferPoolUnpin`, `bufferPoolMarkDirty`, `bufferPoolFlushPage`,
  `bufferPoolFlushAll` — the interface.

An I/O script says how the page writes and reads of a call end.
-/

set_option autoImplicit false

namespace Ticketing

/-- What a frame is about: `fd` and `page_id`. -/
structure PageKey where
  fd : Int
  pageId : Nat
  deriving DecidableEq, Repr

/-- The data files, by descriptor. -/
abbrev DataFiles := Int → Bytes

/-- The bytes of a page on disk. -/
def DataFiles.page (files : DataFiles) (k : PageKey) : Bytes := pageRead (files k.fd) k.pageId

/-- The whole pages of a file. -/
def DataFiles.pages (files : DataFiles) (fd : Int) : Nat := (files fd).length / PAGE_SIZE

/-- `page_write` of a page. -/
def DataFiles.write (files : DataFiles) (k : PageKey) (page : Bytes) (io : IoResult) :
    DataFiles × Bool :=
  let r := pageWrite (files k.fd) k.pageId page io
  (Function.update files k.fd r.1, r.2)

/-- `frame_t`, without the list pointers. -/
structure Frame where
  buf : Bytes
  key : PageKey
  pinCount : Nat
  dirty : Bool
  valid : Bool

/-- `buffer_pool_t`. -/
structure BufferPool where
  frames : Nat → Frame
  numFrames : Nat
  map : Probing.Table PageKey
  mapCapacity : Nat
  lru : Links

/-- `MAP_FACTOR`. -/
def MAP_FACTOR : Nat := 4

/-- The bytes of a frame before its first use. -/
def zeroPage : Bytes := List.replicate PAGE_SIZE 0

/-- `buffer_pool_create`. -/
def bufferPoolCreate (numFrames : Nat) : BufferPool where
  frames := fun _ => ⟨zeroPage, ⟨-1, INVALID_PAGE_ID⟩, 0, false, false⟩
  numFrames := numFrames
  map := fun _ => none
  mapCapacity := numFrames * MAP_FACTOR % 2 ^ 32
  lru := Links.empty

/-- `_hash`. -/
def pageHash (capacity : Nat) (k : PageKey) : Nat :=
  ((k.fd % 2 ^ 32).toNat * 31 + k.pageId) % 2 ^ 32 % capacity

namespace BufferPool

/-- Replace a frame. -/
def setFrame (pool : BufferPool) (i : Nat) (f : Frame) : BufferPool :=
  { pool with frames := Function.update pool.frames i f }

/-- `_map_find`: the bucket of a page. -/
def mapFind (pool : BufferPool) (k : PageKey) : Option Nat :=
  Probing.find (2 ^ 32) pool.mapCapacity (pageHash pool.mapCapacity) pool.map k

/-- `_map_insert`. -/
def mapInsert (pool : BufferPool) (k : PageKey) (i : Nat) : BufferPool :=
  { pool with
    map := Probing.insert (2 ^ 32) pool.mapCapacity (pageHash pool.mapCapacity) pool.map k i }

/-- `_map_remove`. -/
def mapRemove (pool : BufferPool) (k : PageKey) : BufferPool :=
  { pool with map := Probing.remove (2 ^ 32) pool.mapCapacity (pageHash pool.mapCapacity) pool.map k }

/-- The frame of a page: `map[_map_find(...)].frame_idx`. -/
def frameOf (pool : BufferPool) (k : PageKey) : Option Nat :=
  (pool.mapFind k).bind fun b => (pool.map b).map Prod.snd

/-- `_lru_remove`. -/
def lruRemove (pool : BufferPool) (i : Nat) : BufferPool := { pool with lru := pool.lru.remove i }

/-- `_lru_push_front`. -/
def lruPushFront (pool : BufferPool) (i : Nat) : BufferPool :=
  { pool with lru := pool.lru.pushFront i }

/-- `_lru_touch`. -/
def lruTouch (pool : BufferPool) (i : Nat) : BufferPool := (pool.lruRemove i).lruPushFront i

/-- The second pass of `_find_victim` once it has found a frame. -/
def evict (pool : BufferPool) (files : DataFiles) (i : Nat) (io : IoResult) : BufferPool × DataFiles :=
  let f := pool.frames i
  let files := if f.dirty then (files.write f.key f.buf io).1 else files
  (((pool.mapRemove f.key).lruRemove i).setFrame i { f with dirty := false, valid := false }, files)

/-- `_find_victim`. -/
def findVictim (pool : BufferPool) (files : DataFiles) (io : IoResult) :
    Option (Nat × BufferPool × DataFiles) :=
  match (List.range pool.numFrames).find? (fun i => !(pool.frames i).valid) with
  | some i => some (i, pool, files)
  | none =>
    (pool.lru.findBack (fun i => (pool.frames i).pinCount == 0) pool.numFrames pool.lru.tail).map
      fun i => (i, pool.evict files i io)

end BufferPool

open BufferPool

/-- `buffer_pool_fetch`: the frame whose `page_buf` is returned, `none` for `NULL`.  The script has
the write of the victim and the read of the page. -/
def bufferPoolFetch (pool : BufferPool) (files : DataFiles) (k : PageKey) (io : IoScript) :
    BufferPool × DataFiles × Option Nat :=
  match pool.frameOf k with
  | some i =>
    let f := pool.frames i
    let pool := pool.setFrame i { f with pinCount := (f.pinCount + 1) % 2 ^ 32 }
    (pool.lruTouch i, files, some i)
  | none =>
    match pool.findVictim files (io 0) with
    | none => (pool, files, none)
    | some (i, pool, files) =>
      match io 1 with
      | .short _ => (pool, files, none)
      | .ok =>
        let pool := pool.setFrame i ⟨files.page k, k, 1, false, true⟩
        ((pool.mapInsert k i).lruPushFront i, files, some i)

/-- `buffer_pool_unpin`. -/
def bufferPoolUnpin (pool : BufferPool) (k : PageKey) : BufferPool :=
  match pool.frameOf k with
  | none => pool
  | some i =>
    let f := pool.frames i
    if f.pinCount = 0 then pool else pool.setFrame i { f with pinCount := f.pinCount - 1 }

/-- `buffer_pool_mark_dirty`. -/
def bufferPoolMarkDirty (pool : BufferPool) (k : PageKey) : BufferPool :=
  match pool.frameOf k with
  | none => pool
  | some i => pool.setFrame i { pool.frames i with dirty := true }

/-- `buffer_pool_flush_page`: the flag says whether it returns 0. -/
def bufferPoolFlushPage (pool : BufferPool) (files : DataFiles) (k : PageKey) (io : IoResult) :
    BufferPool × DataFiles × Bool :=
  match pool.frameOf k with
  | none => (pool, files, false)
  | some i =>
    let f := pool.frames i
    if f.dirty then
      let r := files.write f.key f.buf io
      if r.2 then (pool.setFrame i { f with dirty := false }, r.1, true) else (pool, r.1, false)
    else (pool, files, true)

/-- One turn of the loop of `buffer_pool_flush_all`. -/
def flushFrame (io : IoScript) (s : BufferPool × DataFiles × Bool) (i : Nat) :
    BufferPool × DataFiles × Bool :=
  let f := s.1.frames i
  if f.valid && f.dirty then
    let r := s.2.1.write f.key f.buf (io i)
    if r.2 then (s.1.setFrame i { f with dirty := false }, r.1, s.2.2) else (s.1, r.1, false)
  else s

/-- `buffer_pool_flush_all`: the flag says whether it returns 0. -/
def bufferPoolFlushAll (pool : BufferPool) (files : DataFiles) (io : IoScript) :
    BufferPool × DataFiles × Bool :=
  (List.range pool.numFrames).foldl (flushFrame io) (pool, files, true)

end Ticketing
