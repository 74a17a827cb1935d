import Ticketing.Lib.OrderedTable
import Ticketing.Common.Types

/-!
# Table calls as their callers see them (`server/storage/table.h`)

One call of the table layer on an ordered table, together with what storage does to it.  A call
that reports an error may or may not have made its change; an insertion uses up its id in either
case.  A scan never reports an error: it passes over the pages it cannot fetch.
-/

set_option autoImplicit false

namespace Ticketing

/-- What happens to a table call. -/
inductive TableFault where
  | none
  /-- An error is returned, after the change has been made or before. -/
  | error (rc : { r : EtpResult // r ≠ .ok }) (applied : Bool)
  /-- A scan passes over the rows whose pages cannot be fetched. -/
  | unread (skipped : Nat → Bool)

section Calls

variable {α : Type}

/-- `table_find_by_id`. -/
def findRecord (t : OTable α) (id : Nat) : TableFault → Except EtpResult α
  | .error rc _ => .error rc
  | _ => (t.get? id).elim (.error .errNotFound) .ok

/-- `table_insert`, as long as there are ids left. -/
def insertRecord (t : OTable α) (a : α) : TableFault → Option (OTable α × Except EtpResult Nat)
  | .error rc applied => some (if applied then t.insert a else t.skip, .error rc)
  | _ => if t.nextId < 2 ^ 32 then some (t.insert a, .ok t.nextId) else none

/-- `table_delete`. -/
def deleteRecord (t : OTable α) (id : Nat) : TableFault → OTable α × EtpResult
  | .error rc applied => (if applied then t.erase id else t, rc)
  | _ => (t.get? id).elim (t, .errNotFound) (fun _ => (t.erase id, .ok))

/-- `table_scan`. -/
def scanRecords (t : OTable α) (filter : α → Bool) (max : Nat) : TableFault → List (Nat × α)
  | .unread skipped => ((t.rows.filter (fun r => !skipped r.1)).filter (fun r => filter r.2)).take max
  | _ => t.scan filter max

theorem findRecord_ok {t : OTable α} {id : Nat} {fault : TableFault} {a : α}
    (h : findRecord t id fault = .ok a) : t.get? id = some a := by
  unfold findRecord at h
  split at h
  · cases h
  · cases hg : t.get? id with
    | none => rw [hg] at h; cases h
    | some b => rw [hg] at h; cases h; rfl

/-- The row of a successful insertion is new, the others stay. -/
theorem insertRecord_get? {t t' : OTable α} {a : α} {fault : TableFault}
    {r : Except EtpResult Nat} (h : insertRecord t a fault = some (t', r)) {id : Nat} {b : α}
    (hb : t'.get? id = some b) : t.get? id = some b ∨ id = t.nextId ∧ b = a := by
  have hinsert : (t.insert a).get? id = some b → t.get? id = some b ∨ id = t.nextId ∧ b = a := by
    intro hb
    rcases eq_or_ne id t.nextId with rfl | hne
    · rw [OTable.get?_insert_self] at hb
      exact Or.inr ⟨rfl, (Option.some.inj hb).symm⟩
    · rw [OTable.get?_insert_ne hne] at hb
      exact Or.inl hb
  unfold insertRecord at h
  split at h
  · cases h
    split at hb
    · exact hinsert hb
    · exact Or.inl hb
  · split at h
    · cases h
      exact hinsert hb
    · cases h

/-- An insertion keeps the rows there are. -/
theorem insertRecord_keeps {t t' : OTable α} {a : α} {fault : TableFault}
    {r : Except EtpResult Nat} (h : insertRecord t a fault = some (t', r)) {id : Nat} {b : α}
    (hb : t.get? id = some b) : t'.get? id = some b := by
  have hne : id ≠ t.nextId := Nat.ne_of_lt (OTable.get?_lt hb)
  unfold insertRecord at h
  split at h
  · cases h
    split
    · rw [OTable.get?_insert_ne hne, hb]
    · exact hb
  · split at h
    · cases h
      rw [OTable.get?_insert_ne hne, hb]
    · cases h

/-- An insertion that returns an id stores the record under it. -/
theorem insertRecord_ok {t t' : OTable α} {a : α} {fault : TableFault} {id : Nat}
    (h : insertRecord t a fault = some (t', .ok id)) : id = t.nextId ∧ t' = t.insert a := by
  unfold insertRecord at h
  split at h
  · cases h
  · split at h
    · cases h
      exact ⟨rfl, rfl⟩
    · cases h

theorem insertRecord_error {t t' : OTable α} {a : α} {fault : TableFault} {rc : EtpResult}
    (h : insertRecord t a fault = some (t', .error rc)) : rc ≠ .ok := by
  unfold insertRecord at h
  split at h
  · rename_i rc' applied
    cases h
    exact rc'.property
  · split at h <;> cases h

/-- An insertion that storage does not disturb. -/
theorem insertRecord_works {t t' : OTable α} {a : α} {r : Except EtpResult Nat}
    (h : insertRecord t a .none = some (t', r)) :
    t.nextId < 2 ^ 32 ∧ t' = t.insert a ∧ r = .ok t.nextId := by
  simp only [insertRecord] at h
  split at h
  · rename_i hid
    cases h
    exact ⟨hid, rfl, rfl⟩
  · cases h

/-- What a scan returns is in the table and passes the filter. -/
theorem mem_scanRecords {t : OTable α} {filter : α → Bool} {max : Nat} {fault : TableFault}
    {r : Nat × α} (h : r ∈ scanRecords t filter max fault) :
    t.get? r.1 = some r.2 ∧ filter r.2 = true := by
  have hmem : r ∈ t.rows ∧ filter r.2 = true := by
    unfold scanRecords at h
    split at h
    · have hf := List.mem_filter.mp (List.mem_of_mem_take h)
      exact ⟨List.mem_of_mem_filter hf.1, hf.2⟩
    · exact List.mem_filter.mp (List.mem_of_mem_take h)
  exact ⟨OTable.mem_iff.mp hmem.1, hmem.2⟩

/-- What a scan returns is determined by the lookups of the rows that pass its filter. -/
theorem scanRecords_congr {t t' : OTable α} {filter : α → Bool} (max : Nat) (fault : TableFault)
    (h : ∀ id a, filter a = true → (t.get? id = some a ↔ t'.get? id = some a)) :
    scanRecords t filter max fault = scanRecords t' filter max fault := by
  have hrows := OTable.filter_rows_ext h
  cases fault with
  | unread skipped =>
    simp only [scanRecords, List.filter_comm (fun r : Nat × α => filter r.2), hrows]
  | none | error rc applied =>
    unfold scanRecords OTable.scan
    rw [hrows]

/-- A deletion drops at most the row of its id. -/
theorem deleteRecord_get? {t : OTable α} {id id' : Nat} {fault : TableFault} {a : α}
    (h : t.get? id' = some a) (hne : id' ≠ id) : (deleteRecord t id fault).1.get? id' = some a := by
  unfold deleteRecord
  split
  · split
    · rw [OTable.get?_erase_ne hne, h]
    · exact h
  · cases t.get? id with
    | none => exact h
    | some b => exact (OTable.get?_erase_ne hne).trans h

/-- After a reported deletion the row is gone. -/
theorem deleteRecord_ok {t : OTable α} {id : Nat} {fault : TableFault}
    (h : (deleteRecord t id fault).2 = .ok) : (deleteRecord t id fault).1.get? id = none := by
  cases fault with
  | error rc applied => exact absurd h rc.property
  | none | unread skipped =>
    simp only [deleteRecord] at h ⊢
    cases hg : t.get? id with
    | none => rw [hg] at h; cases h
    | some a => exact OTable.get?_erase_self t id

/-- A deletion adds nothing. -/
theorem deleteRecord_sub {t : OTable α} {id id' : Nat} {fault : TableFault} {a : α}
    (h : (deleteRecord t id fault).1.get? id' = some a) : t.get? id' = some a := by
  have herase : (t.erase id).get? id' = some a → t.get? id' = some a := by
    intro h
    rcases eq_or_ne id' id with rfl | hne
    · rw [OTable.get?_erase_self] at h
      cases h
    · rwa [OTable.get?_erase_ne hne] at h
  unfold deleteRecord at h
  split at h
  · split at h
    · exact herase h
    · exact h
  · cases hg : t.get? id with
    | none => rw [hg] at h; exact h
    | some b => rw [hg] at h; exact herase h

end Calls

end Ticketing
