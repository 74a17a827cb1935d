import Ticketing.Server.ResponseOffsets
import Ticketing.Server.Privileges

/-!
# Complete listings

What the five listings have to print, and when they do: each scans into an array of fixed size, and
prints into a buffer of fixed size.

* `ListingFormat.complete` — the text for all the records.
* `RowsFit`, `ListingFormat.print_eq_complete_iff` — the loop prints it exactly when it is given all the
  records and the rows fit.
* `scanRecords_eq_iff`, `reportsOrganizerRevenue_complete_iff` — the same for the scans and the reports.
* `ListsAll`, `lists_all_iff` — when a command lists what it has to.
* `fifty_first_user_missing` — with 51 users `LIST_USERS` counts and names 50.
-/

set_option autoImplicit false

namespace Ticketing

open CText

/-! ## The loop over the rows -/

/-- From offset `off` on every row begins before `limit` and ends inside the buffer. -/
def RowsFit (limit : Nat) : Nat → List CStr → Prop
  | _, [] => True
  | off, row :: rows =>
    off < limit ∧ off + row.length < MAX_RESPONSE_SIZE ∧ RowsFit limit (off + row.length) rows

instance (limit : Nat) : (off : Nat) → (rows : List CStr) → Decidable (RowsFit limit off rows)
  | _, [] => isTrue trivial
  | off, row :: rows =>
    haveI := instDecidableRowsFit limit (off + row.length) rows
    inferInstanceAs (Decidable (_ ∧ _ ∧ _))

namespace ResponseBuffer

variable {limit : Nat}

theorem addRows_eq_fill (b : ResponseBuffer) (slack : Nat) (rows : List CStr) :
    b.addRows slack rows = b.fill (· < MAX_RESPONSE_SIZE - slack) rows := rfl

/-- Rows that fit are printed one after another. -/
theorem addRows_fit (rows : List CStr) : ∀ {b : ResponseBuffer}, RowsFit limit b.off rows →
    (b.fill (· < limit) rows).out = b.out ++ rows.flatten := by
  induction rows with
  | nil =>
    intro b _
    exact (List.append_nil _).symm
  | cons row rows ih =>
    rintro b ⟨hroom, hend, hrest⟩
    have hstep : b.fill (· < limit) (row :: rows) =
        (if b.off < limit then b.add row else b).fill (· < limit) rows := rfl
    have hwhole : (b.add row).out = b.out ++ row := by
      rw [ResponseBuffer.add, List.take_of_length_le (by omega)]
    rw [hstep, if_pos hroom, ih hrest, hwhole, List.flatten_cons, List.append_assoc]

theorem length_start_le (header : CStr) : (start header).out.length ≤ header.length := by
  rw [start, strlcpy, List.length_take]
  exact Nat.min_le_right _ _

/-- The loop prints no more than the rows, and less unless they fit. -/
theorem addRows_length (hlimit : limit ≤ MAX_RESPONSE_SIZE) {rows : List CStr} :
    ∀ {b : ResponseBuffer}, (∀ row ∈ rows, row ≠ []) →
      (b.fill (· < limit) rows).out.length ≤ b.out.length + rows.flatten.length ∧
        ((b.fill (· < limit) rows).out.length = b.out.length + rows.flatten.length →
          RowsFit limit b.off rows) := by
  induction rows with
  | nil =>
    intro b _
    exact ⟨Nat.le_refl _, fun _ => trivial⟩
  | cons row rows ih =>
    intro b hrows
    rw [List.forall_mem_cons] at hrows
    have hstep : b.fill (· < limit) (row :: rows) =
        (if b.off < limit then b.add row else b).fill (· < limit) rows := rfl
    have hpos := List.length_pos_iff.mpr hrows.1
    rw [hstep, List.flatten_cons, List.length_append]
    by_cases hroom : b.off < limit
    · obtain ⟨hle, heq⟩ := ih (b := b.add row) hrows.2
      have hadd : (b.add row).out.length =
          b.out.length + min (MAX_RESPONSE_SIZE - b.off - 1) row.length := by
        rw [ResponseBuffer.add, List.length_append, List.length_take]
      have hoff : (b.add row).off = b.off + row.length := rfl
      rw [if_pos hroom]
      rw [hoff] at heq
      refine ⟨by omega, fun hall => ⟨hroom, by omega, heq (by omega)⟩⟩
    · rw [if_neg hroom, fill_stop hroom]
      exact ⟨by omega, fun hall => by omega⟩

end ResponseBuffer

/-! ## Listings -/

namespace ListingFormat

variable {β : Type} {F : ListingFormat β} {records all : List β}

/-- The text for all the records. -/
def complete (F : ListingFormat β) (records : List β) : CStr :=
  if records.length = 0 then F.empty
  else F.header records.length ++ (records.map F.row).flatten

/-- The rows fit behind the header. -/
def Fits (F : ListingFormat β) (records : List β) : Prop :=
  RowsFit (MAX_RESPONSE_SIZE - F.slack) (F.header records.length).length (records.map F.row)

instance (F : ListingFormat β) (records : List β) : Decidable (F.Fits records) :=
  inferInstanceAs (Decidable (RowsFit _ _ _))

/-- A row is never empty, a header is longer than the text for no records and does not get shorter with
more records. -/
structure Proper (F : ListingFormat β) : Prop where
  row_ne : ∀ r, F.row r ≠ []
  header_mono : ∀ {m n : Nat}, m ≤ n → (F.header m).length ≤ (F.header n).length
  empty_lt : F.empty.length < (F.header 0).length

theorem rows_ne (hF : F.Proper) (records : List β) : ∀ row ∈ records.map F.row, row ≠ [] := by
  intro row hrow
  obtain ⟨r, -, rfl⟩ := List.mem_map.mp hrow
  exact hF.row_ne r

/-- The listing is complete exactly when its rows fit. -/
theorem print_complete_iff (hF : F.Proper) :
    F.print records = F.complete records ↔ F.Fits records := by
  unfold print complete Fits
  by_cases hzero : records.length = 0
  · obtain rfl := List.length_eq_zero_iff.mp hzero
    exact iff_of_true rfl trivial
  rw [if_neg hzero, if_neg hzero, ResponseBuffer.addRows_eq_fill]
  have hstart := ResponseBuffer.length_start_le (F.header records.length)
  obtain ⟨hle, heq⟩ := ResponseBuffer.addRows_length
    (Nat.sub_le MAX_RESPONSE_SIZE F.slack) (b := .start (F.header records.length))
    (rows_ne hF records)
  constructor
  · intro hall
    have hlength := congrArg List.length hall
    rw [List.length_append] at hlength
    exact heq (by omega)
  · intro hfits
    have hheader : (F.header records.length).length < MAX_RESPONSE_SIZE := by
      cases records with
      | nil => exact absurd rfl hzero
      | cons r records => exact Nat.lt_of_lt_of_le hfits.1 (Nat.sub_le _ _)
    have hout : (ResponseBuffer.start (F.header records.length)).out = F.header records.length :=
      List.take_of_length_le (by omega)
    refine (ResponseBuffer.addRows_fit (records.map F.row) hfits).trans ?_
    rw [hout]

theorem length_print_le (hF : F.Proper) (records : List β) :
    (F.print records).length ≤ (F.complete records).length := by
  unfold print complete
  by_cases hzero : records.length = 0
  · rw [if_pos hzero, if_pos hzero]
  rw [if_neg hzero, if_neg hzero, ResponseBuffer.addRows_eq_fill]
  have hstart := ResponseBuffer.length_start_le (F.header records.length)
  have hrows := (ResponseBuffer.addRows_length (Nat.sub_le MAX_RESPONSE_SIZE F.slack)
    (b := .start (F.header records.length)) (rows_ne hF records)).1
  rw [List.length_append]
  exact Nat.le_trans hrows (Nat.add_le_add_right hstart _)

/-- Each record left out makes the rows shorter. -/
theorem length_rows_sublist (hF : F.Proper) (h : records.Sublist all) :
    (records.map F.row).flatten.length + all.length ≤
      (all.map F.row).flatten.length + records.length := by
  induction h with
  | slnil => exact Nat.le_refl _
  | cons r _ ih =>
    have hpos := List.length_pos_iff.mpr (hF.row_ne r)
    simp only [List.map_cons, List.flatten_cons, List.length_append, List.length_cons]
    omega
  | cons_cons r _ ih =>
    simp only [List.map_cons, List.flatten_cons, List.length_append, List.length_cons]
    omega

/-- A listing of fewer records is shorter. -/
theorem length_complete_lt (hF : F.Proper) (h : records.Sublist all) (hne : records ≠ all) :
    (F.complete records).length < (F.complete all).length := by
  have hlen : records.length < all.length :=
    Nat.lt_of_le_of_ne h.length_le fun heq => hne (h.eq_of_length heq)
  have hrows := length_rows_sublist hF h
  unfold complete
  rw [if_neg (show ¬ all.length = 0 by omega), List.length_append]
  split
  · have := hF.header_mono (Nat.zero_le all.length)
    have := hF.empty_lt
    omega
  · have := hF.header_mono (Nat.le_of_lt hlen)
    rw [List.length_append]
    omega

/-- **When a listing is complete**: it is given all the records, and their rows fit. -/
theorem print_eq_complete_iff (hF : F.Proper) (h : records.Sublist all) :
    F.print records = F.complete all ↔ records = all ∧ F.Fits all := by
  constructor
  · intro hprint
    have hsame : records = all := by
      by_contra hne
      have hlt := length_complete_lt hF h hne
      have hle := length_print_le hF records
      rw [hprint] at hle
      omega
    subst hsame
    exact ⟨rfl, (print_complete_iff hF).mp hprint⟩
  · rintro ⟨rfl, hfits⟩
    exact (print_complete_iff hF).mpr hfits

end ListingFormat

/-! ## The formats -/

theorem decimal_length_mono {m n : Nat} (h : m ≤ n) : (decimal m).length ≤ (decimal n).length := by
  rw [decimal, decimal, List.length_map, List.length_map]
  apply (Nat.length_toDigits_le_iff (by decide) Nat.length_toDigits_pos).mpr
  exact Nat.lt_of_le_of_lt h
    ((Nat.length_toDigits_le_iff (by decide) Nat.length_toDigits_pos).mp (Nat.le_refl _))

theorem line_ne_nil (line : CStr) : line ++ text "\n" ≠ [] := by
  intro h
  exact absurd (List.append_eq_nil_iff.mp h).2 (by decide +kernel)

section Formats

variable (libc : FloatLibc)

theorem eventListing_proper : (eventListing libc).Proper where
  row_ne _ := line_ne_nil _
  header_mono h := by
    have := decimal_length_mono h
    simp only [eventListing, List.length_append]
    omega
  empty_lt := by
    have h : (eventListing noFloats).empty.length < ((eventListing noFloats).header 0).length := by
      decide +kernel
    exact h

theorem seatListing_proper (eid : Nat) : (seatListing eid).Proper where
  row_ne _ := line_ne_nil _
  header_mono h := by
    have := decimal_length_mono h
    simp only [seatListing, List.length_append]
    omega
  empty_lt := by
    have h : (seatListing 0).empty.length < ((seatListing 0).header 0).length := by decide +kernel
    have := decimal_length_mono (Nat.zero_le eid)
    simp only [seatListing, List.length_append] at h ⊢
    omega

theorem bookingListing_proper : (bookingListing libc).Proper where
  row_ne _ := line_ne_nil _
  header_mono h := by
    have := decimal_length_mono h
    simp only [bookingListing, List.length_append]
    omega
  empty_lt := by
    have h : (bookingListing noFloats).empty.length < ((bookingListing noFloats).header 0).length := by
      decide +kernel
    exact h

theorem revenueListing_proper : (revenueListing libc).Proper where
  row_ne _ := line_ne_nil _
  header_mono _ := Nat.le_refl _
  empty_lt := by
    have h : (revenueListing noFloats).empty.length < ((revenueListing noFloats).header 0).length := by
      decide +kernel
    exact h

theorem userListing_proper : userListing.Proper where
  row_ne _ := line_ne_nil _
  header_mono h := by
    have := decimal_length_mono h
    simp only [userListing, List.length_append]
    omega
  empty_lt := by decide +kernel

/-- Short rows fit. -/
theorem rowsFit_of_short {limit m : Nat} {rows : List CStr} (hrows : ∀ row ∈ rows, row.length ≤ m) :
    ∀ {off : Nat}, off + rows.length * m < limit → limit ≤ MAX_RESPONSE_SIZE → RowsFit limit off rows := by
  induction rows with
  | nil => exact fun _ _ => trivial
  | cons row rows ih =>
    intro off hoff hlimit
    rw [List.forall_mem_cons] at hrows
    rw [List.length_cons, Nat.succ_mul] at hoff
    have hrow := hrows.1
    exact ⟨by omega, by omega, ih hrows.2 (by omega) hlimit⟩

/-- The reports of one organizer always fit. -/
theorem revenueListing_fits {revs : List EventRevenue} (h : revs.length ≤ 20) :
    (revenueListing libc).Fits revs := by
  apply rowsFit_of_short (m := 512)
  · intro row hrow
    obtain ⟨rev, -, rfl⟩ := List.mem_map.mp hrow
    have hnewline : (text "\n").length = 1 := by decide +kernel
    simp only [revenueListing, reportsFormatRevenue, strlcpy, List.length_append, List.length_take,
      hnewline]
    omega
  · have hheader : ((revenueListing noFloats).header 0).length = 28 := by decide +kernel
    have hsame : ((revenueListing libc).header revs.length).length = 28 := hheader
    have hlimit : MAX_RESPONSE_SIZE - (revenueListing libc).slack = 65336 := rfl
    rw [hsame, hlimit, List.length_map]
    omega
  · exact Nat.sub_le _ _

end Formats

/-! ## Scans -/

/-- The row can be read by a scan. -/
def TableFault.reads : TableFault → Nat → Bool
  | .unread skipped, id => !skipped id
  | _, _ => true

/-- A lookup is not disturbed. -/
def TableFault.finds : TableFault → Bool
  | .error _ _ => false
  | _ => true

section Scans

variable {α : Type} {t : OTable α} {p : α → Bool} {max : Nat} {fault : TableFault}

theorem scanRecords_eq : scanRecords t p max fault =
    (((t.filter p).rows.filter fun r => fault.reads r.1).take max) := by
  cases fault with
  | unread skipped =>
    rw [scanRecords, List.filter_comm]
    rfl
  | none | error rc applied =>
    have hall : (t.filter p).rows.filter (fun _ => true) = (t.filter p).rows :=
      List.filter_eq_self.mpr fun _ _ => rfl
    exact congrArg (List.take max) hall.symm

theorem scanRecords_sublist : (scanRecords t p max fault).Sublist (t.filter p).rows := by
  rw [scanRecords_eq]
  exact (List.take_sublist _ _).trans List.filter_sublist

/-- A scan returns all the rows that pass the filter exactly when it can read them and there are not
too many. -/
theorem scanRecords_eq_iff : scanRecords t p max fault = (t.filter p).rows ↔
    (∀ r ∈ (t.filter p).rows, fault.reads r.1 = true) ∧ (t.filter p).rows.length ≤ max := by
  rw [scanRecords_eq]
  constructor
  · intro h
    have hsub := List.take_sublist max ((t.filter p).rows.filter fun r => fault.reads r.1)
    rw [h] at hsub
    have hread := List.filter_sublist.antisymm hsub
    refine ⟨List.filter_eq_self.mp hread, ?_⟩
    rw [hread] at h
    exact List.take_eq_self_iff _ |>.mp h
  · rintro ⟨hread, hlen⟩
    rw [List.filter_eq_self.mpr hread, List.take_of_length_le hlen]

end Scans

section Reports

variable {events : OTable EventRow} {seats : OTable SeatRecord} {organizerId max : Nat}
  {fault : Nat → TableFault} {memory : Nat → Bool}

/-- The report of the event at one place of the scan, if its lookup succeeds and there is memory for its seats. -/
def reportAt (events : OTable EventRow) (seats : OTable SeatRecord) (fault : Nat → TableFault)
    (memory : Nat → Bool) (r : (Nat × EventRow) × Nat) : Option EventRevenue :=
  (reportsEventRevenue events seats r.1.1 (fault (2 * r.2 + 1)) (fault (2 * r.2 + 2))
    (memory r.2)).toOption

/-- An event has a report unless its lookup is disturbed or memory runs out. -/
theorem reportAt_eventId {r : (Nat × EventRow) × Nat} (hr : r.1 ∈ events.rows) :
    (reportAt events seats fault memory r).map EventRevenue.eventId =
      if (fault (2 * r.2 + 1)).finds && memory r.2 then some r.1.1 else none := by
  have hget : events.get? r.1.1 = some r.1.2 := OTable.mem_iff.mp hr
  unfold reportAt reportsEventRevenue
  cases fault (2 * r.2 + 1) with
  | error rc applied => rfl
  | none | unread skipped =>
    simp only [findRecord, hget]
    cases memory r.2 <;> rfl

/-- **When an organizer's reports are complete**: the scan and the lookups are not disturbed, there is memory for
the seats of each event, and there are no more events than reports. -/
theorem reportsOrganizerRevenue_complete_iff (hmax : max ≤ 100) :
    (reportsOrganizerRevenue events seats organizerId max fault memory).map EventRevenue.eventId =
        (events.filter (filterByOrganizer organizerId)).rows.map Prod.fst ↔
      (∀ r ∈ (events.filter (filterByOrganizer organizerId)).rows, (fault 0).reads r.1 = true) ∧
        (∀ i < (events.filter (filterByOrganizer organizerId)).rows.length,
          (fault (2 * i + 1)).finds = true ∧ memory i = true) ∧
        (events.filter (filterByOrganizer organizerId)).rows.length ≤ max := by
  have hunfold : reportsOrganizerRevenue events seats organizerId max fault memory =
      ((scanRecords events (filterByOrganizer organizerId) 100 (fault 0)).zipIdx.filterMap
        (reportAt events seats fault memory)).take max := rfl
  have hrows : (events.filter (filterByOrganizer organizerId)).rows.Sublist events.rows :=
    List.filter_sublist
  have hscan : (scanRecords events (filterByOrganizer organizerId) 100 (fault 0)).Sublist
      (events.filter (filterByOrganizer organizerId)).rows := scanRecords_sublist
  have hwhole : scanRecords events (filterByOrganizer organizerId) 100 (fault 0) =
      (events.filter (filterByOrganizer organizerId)).rows ↔ _ := scanRecords_eq_iff
  rw [hunfold]
  generalize scanRecords events (filterByOrganizer organizerId) 100 (fault 0) = scan at hscan hwhole ⊢
  generalize (events.filter (filterByOrganizer organizerId)).rows = own at hrows hscan hwhole ⊢
  constructor
  · -- As many reports as events: nothing was left out on the way.
    intro h
    have hlength := congrArg List.length h
    rw [List.length_map, List.length_take, List.length_map] at hlength
    have hle := List.length_filterMap_le (reportAt events seats fault memory) scan.zipIdx
    have hzip : scan.zipIdx.length = scan.length := List.length_zipIdx
    have hlen := hscan.length_le
    have hsame : scan = own := hscan.eq_of_length (by omega)
    subst hsame
    have hsome := List.filterMap_length_eq_length.mp (Nat.le_antisymm hle (by omega))
    refine ⟨(hwhole.mp rfl).1, fun i hi => ?_, by omega⟩
    have hmem : (scan[i], i) ∈ scan.zipIdx :=
      List.mem_zipIdx_iff_getElem?.mpr (List.getElem?_eq_getElem hi)
    have hreport : (reportAt events seats fault memory (scan[i], i)).map EventRevenue.eventId = _ :=
      reportAt_eventId (hrows.subset (List.getElem_mem hi))
    rw [← Bool.and_eq_true]
    by_contra hfind
    rw [if_neg hfind, Option.map_eq_none_iff] at hreport
    have := hsome _ hmem
    rw [hreport] at this
    cases this
  · rintro ⟨hread, hfinds, hlen⟩
    obtain rfl := hwhole.mpr ⟨hread, Nat.le_trans hlen hmax⟩
    have hall : ∀ r ∈ scan.zipIdx,
        (reportAt events seats fault memory r).map EventRevenue.eventId = some r.1.1 := by
      intro r hr
      rw [reportAt_eventId (hrows.subset (List.fst_mem_of_mem_zipIdx hr)), if_pos]
      rw [Bool.and_eq_true]
      exact hfinds r.2 (List.snd_lt_of_mem_zipIdx hr)
    have hids : (scan.zipIdx.filterMap (reportAt events seats fault memory)).map EventRevenue.eventId =
        scan.map Prod.fst := by
      calc (scan.zipIdx.filterMap (reportAt events seats fault memory)).map EventRevenue.eventId
          = scan.zipIdx.filterMap (fun r => some r.1.1) := by
            rw [List.map_filterMap, List.filterMap_congr hall]
        _ = (scan.zipIdx.map Prod.fst).map Prod.fst := by
            rw [List.filterMap_eq_map', List.map_map]
            rfl
        _ = scan.map Prod.fst := by rw [List.zipIdx_map_fst]
    rw [List.map_take, hids, List.take_of_length_le]
    rw [List.length_map]
    exact hlen

end Reports

/-! ## The commands -/

section Commands

variable (libc : FloatLibc) (env : CmdEnv) (s : Server) (slot : Fin MAX_CONNECTIONS)
  (cmd : ParsedCommand)

/-- The live active events. -/
def Server.activeEvents : OTable EventRow := s.events.filter fun e => e.status == .active

/-- The seats of an event. -/
def Server.seatsOf (eventId : Nat) : OTable SeatRecord := s.seats.filter fun r => r.eventId == eventId

/-- The confirmed bookings of a user. -/
def Server.bookingsOf (userId : Nat) : OTable BookingRecord :=
  s.bookings.filter fun b => b.userId == userId && b.status == .confirmed

/-- The live active events of an organizer. -/
def Server.eventsOf (organizerId : Nat) : OTable EventRow :=
  s.events.filter fun e => e.organizerId == organizerId && e.status == .active

/-- A listing answers with the text for all its records, in the order of the table; `REVENUE` with a
report for each. -/
def ListsAll : Prop :=
  match cmd.type with
  | .listEvents =>
    handleCommand libc env s slot cmd = some (s, (eventListing libc).complete s.activeEvents.rows)
  | .viewSeats => 1 ≤ cmd.argc →
    handleCommand libc env s slot cmd =
      some (s, (seatListing (idArg (cmd.arg 0))).complete (s.seatsOf (idArg (cmd.arg 0))).rows)
  | .myBookings =>
    handleCommand libc env s slot cmd =
      some (s, (bookingListing libc).complete (s.bookingsOf (s.auth.sessions slot).userId).rows)
  | .revenue => cmd.argc = 0 → ∃ revs : List EventRevenue,
    revs = reportsOrganizerRevenue s.events s.seats (s.auth.sessions slot).userId 20 env.fault env.memory ∧
      revs.map EventRevenue.eventId =
        (s.eventsOf (s.auth.sessions slot).userId).rows.map Prod.fst ∧
      handleCommand libc env s slot cmd = some (s, (revenueListing libc).complete revs)
  | .listUsers => handleCommand libc env s slot cmd = some (s, userListing.complete s.users.rows)
  | _ => True

/-- The scan can read the rows, there are at most `cap` of them, and their lines fit into the response. -/
structure Listable {β : Type} (F : ListingFormat (Nat × β)) (cap : Nat) (fault : TableFault)
    (t : OTable β) : Prop where
  read : ∀ r ∈ t.rows, fault.reads r.1 = true
  few : t.rows.length ≤ cap
  fits : F.Fits t.rows

/-- When a listing is complete. -/
def ListsAllWhen : Prop :=
  match cmd.type with
  | .listEvents => Listable (eventListing libc) 50 (env.fault 0) s.activeEvents
  | .viewSeats => 1 ≤ cmd.argc → env.memory 0 = true ∧
    Listable (seatListing (idArg (cmd.arg 0))) MAX_REPORT_SEATS (env.fault 0)
      (s.seatsOf (idArg (cmd.arg 0)))
  | .myBookings =>
    Listable (bookingListing libc) 20 (env.fault 0) (s.bookingsOf (s.auth.sessions slot).userId)
  | .revenue => cmd.argc = 0 →
    (∀ r ∈ (s.eventsOf (s.auth.sessions slot).userId).rows, (env.fault 0).reads r.1 = true) ∧
      (∀ i < (s.eventsOf (s.auth.sessions slot).userId).rows.length,
        (env.fault (2 * i + 1)).finds = true ∧ env.memory i = true) ∧
      (s.eventsOf (s.auth.sessions slot).userId).rows.length ≤ 20
  | .listUsers => Listable userListing 50 (env.fault 0) s.users
  | _ => True

variable {libc env s slot cmd}

/-- A listing that prints what its scan returns. -/
theorem print_scan_eq_iff {β : Type} {F : ListingFormat (Nat × β)} (hF : F.Proper) {t : OTable β}
    {p : β → Bool} {cap : Nat} {fault : TableFault} {resp : CStr}
    (hresp : resp = F.print (scanRecords t p cap fault)) :
    some (s, resp) = some (s, F.complete (t.filter p).rows) ↔ Listable F cap fault (t.filter p) := by
  have hpair : some (s, resp) = some (s, F.complete (t.filter p).rows) ↔
      resp = F.complete (t.filter p).rows := by
    simp only [Option.some.injEq, Prod.mk.injEq, true_and]
  rw [hpair, hresp, ListingFormat.print_eq_complete_iff hF scanRecords_sublist, scanRecords_eq_iff]
  constructor
  · rintro ⟨⟨hread, hfew⟩, hfits⟩
    exact ⟨hread, hfew, hfits⟩
  · rintro ⟨hread, hfew, hfits⟩
    exact ⟨⟨hread, hfew⟩, hfits⟩

/-- Without memory `VIEW_SEATS` answers with neither the seats nor that there are none. -/
theorem starved_ne_complete {eid : Nat} {records : List (Nat × SeatRecord)} :
    errorResponse (text "Out of memory") ≠ (seatListing eid).complete records := by
  have hstarved : (errorResponse (text "Out of memory")).take 7 = text "ERROR O" := by decide +kernel
  intro h
  rw [h] at hstarved
  unfold ListingFormat.complete at hstarved
  split at hstarved
  · rw [show (seatListing eid).empty = errorResponse (text "No seats found") from rfl] at hstarved
    exact absurd hstarved (by decide +kernel)
  · obtain ⟨rest, hrest⟩ : ∃ rest, (seatListing eid).header records.length =
        text "OK Seats for event " ++ rest := by
      simp only [seatListing, List.append_assoc]
      exact ⟨_, rfl⟩
    rw [hrest, List.append_assoc, List.take_append_of_le_length (by decide +kernel)] at hstarved
    exact absurd hstarved (by decide +kernel)

/-- **When listings are complete**: for every state of the server, session and command, a listing names
all its records exactly when its scan can read them, there are no more than its array holds (50 events,
2600 seats, 20 bookings, 20 reports, 50 users), `malloc` has room for the seats where it is asked for it, and
their lines fit into the response. -/
theorem lists_all_iff : ListsAll libc env s slot cmd ↔ ListsAllWhen libc env s slot cmd := by
  unfold ListsAll ListsAllWhen handleCommand
  cases cmd.type with
  | listEvents =>
    exact print_scan_eq_iff (eventListing_proper libc) (handleListEvents_print libc env s)
  | viewSeats =>
    apply imp_congr_right
    intro hargc
    cases hmemory : env.memory 0 with
    | true =>
      rw [eq_self, true_and]
      exact print_scan_eq_iff (seatListing_proper _) (handleViewSeats_print env s cmd hargc hmemory)
    | false =>
      refine iff_of_false (fun hall => ?_) fun hwhen => absurd hwhen.1 Bool.false_ne_true
      rw [handleViewSeats_starved env s cmd hargc hmemory] at hall
      exact starved_ne_complete (Prod.mk.inj (Option.some.inj hall)).2
  | myBookings =>
    exact print_scan_eq_iff (bookingListing_proper libc) (handleMyBookings_print libc env s slot)
  | revenue =>
    apply imp_congr_right
    intro hargc
    constructor
    · rintro ⟨revs, rfl, hids, -⟩
      exact (reportsOrganizerRevenue_complete_iff (by decide)).mp hids
    · intro h
      refine ⟨_, rfl, (reportsOrganizerRevenue_complete_iff (by decide)).mpr h, ?_⟩
      have hfits := revenueListing_fits libc (List.length_take_le 20
        ((scanRecords s.events (filterByOrganizer (s.auth.sessions slot).userId) 100
          (env.fault 0)).zipIdx.filterMap (reportAt s.events s.seats env.fault env.memory)))
      have hprint := (ListingFormat.print_complete_iff (revenueListing_proper libc)).mpr hfits
      exact congrArg (fun resp => some (s, resp))
        ((handleRevenue_print libc env s slot cmd hargc).trans hprint)
  | listUsers =>
    rw [← OTable.filter_true s.users]
    exact print_scan_eq_iff userListing_proper (handleListUsers_print env s)
  | register | login | logout | viewEvent | createEvent | deleteEvent | book | cancel | systemStats
    | quit | unknown | help => exact Iff.rfl

end Commands

/-- Fifty visitors register, then the admin logs in. -/
def fiftyRegistrations : List ClientAct :=
  .connect 4 ::
    (List.range 50).map (fun i =>
      .command 4 (.line (text "REGISTER user" ++ decimal i ++ text " secret"))
        ⟨0, fun _ => .none, [], fun _ => true⟩) ++
    [typed "LOGIN admin admin123"]

/-- With the admin there are 51 users, and `LIST_USERS` counts 50. -/
theorem fifty_first_user_missing : ∃ tr s slot,
    History (ClientSys.step noFloats) (ClientSys.init 0) tr s ∧
      (s.server.auth.sessions slot).role = .admin ∧ s.server.users.rows.length = 51 ∧
      (handleListUsers ⟨0, fun _ => .none, [], fun _ => true⟩ s.server).take 13 = text "OK 50 user(s)" ∧
      ¬ ListsAll noFloats ⟨0, fun _ => .none, [], fun _ => true⟩ s.server slot ⟨.listUsers, []⟩ := by
  have hrun : (runHistory (ClientSys.step noFloats) [] (ClientSys.init 0) fiftyRegistrations).any
      (fun r => (r.2.server.auth.sessions ⟨0, by decide⟩).role == .admin &&
        r.2.server.users.rows.length == 51 &&
        (handleListUsers ⟨0, fun _ => .none, [], fun _ => true⟩ r.2.server).take 13 == text "OK 50 user(s)") =
        true := by
    decide +kernel
  obtain ⟨⟨tr, s⟩, hr, hcheck⟩ := (Option.any_eq_true _ _).mp hrun
  simp only [Bool.and_eq_true, beq_iff_eq] at hcheck
  obtain ⟨⟨hrole, husers⟩, hcount⟩ := hcheck
  refine ⟨tr, s, ⟨0, by decide⟩, History.of_runHistory .nil hr, hrole, husers, hcount, fun hall => ?_⟩
  have hlist : some (s.server, handleListUsers ⟨0, fun _ => .none, [], fun _ => true⟩ s.server) =
      some (s.server, userListing.complete (s.server.users.filter fun _ => true).rows) := by
    rw [OTable.filter_true]
    exact hall
  have hfew := ((print_scan_eq_iff userListing_proper (handleListUsers_print _ s.server)).mp hlist).few
  rw [OTable.filter_true, husers] at hfew
  exact absurd hfew (by decide)

end Ticketing
