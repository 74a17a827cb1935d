import Ticketing.Lib.CText

/-!
# Server statistics (`server/ipc/stats.c`)

The counters of the shared memory segment that the server updates and `SYSTEM_STATS` prints.
-/

set_option autoImplicit false

namespace Ticketing

open CText

/-- `server_stats_t`. -/
structure ServerStats where
  activeConnections : UInt32
  totalConnections : UInt32
  totalRequests : UInt64
  failedRequests : UInt64
  totalBookings : UInt32
  cancelledBookings : UInt32
  totalEvents : UInt32
  activeEvents : UInt32
  bufferPoolHits : UInt32
  bufferPoolMisses : UInt32
  locksAcquired : UInt32
  lockContentions : UInt32
  serverStartTime : Int
  deriving DecidableEq, Repr

/-- `shm_stats_create`. -/
def shmStatsCreate (now : Int) : ServerStats := ⟨0, 0, 0, 0, 0, 0, 0, 0, 0, 0, 0, 0, now⟩

namespace ServerStats

/-- `stats_inc_connections`. -/
def incConnections (s : ServerStats) : ServerStats :=
  { s with
    activeConnections := s.activeConnections + 1
    totalConnections := s.totalConnections + 1 }

/-- `stats_dec_connections`. -/
def decConnections (s : ServerStats) : ServerStats :=
  { s with activeConnections := s.activeConnections - 1 }

/-- `stats_inc_requests`. -/
def incRequests (s : ServerStats) : ServerStats := { s with totalRequests := s.totalRequests + 1 }

/-- `stats_inc_failed_requests`. -/
def incFailedRequests (s : ServerStats) : ServerStats :=
  { s with failedRequests := s.failedRequests + 1 }

/-- `stats_inc_bookings`. -/
def incBookings (s : ServerStats) : ServerStats := { s with totalBookings := s.totalBookings + 1 }

/-- `stats_inc_cancelled_bookings`. -/
def incCancelledBookings (s : ServerStats) : ServerStats :=
  { s with cancelledBookings := s.cancelledBookings + 1 }

/-- `stats_inc_events`. -/
def incEvents (s : ServerStats) : ServerStats :=
  { s with totalEvents := s.totalEvents + 1, activeEvents := s.activeEvents + 1 }

/-- `%02d`. -/
def twoDigits (n : Int) : CStr :=
  let d := decimalInt n
  List.replicate (2 - d.length) 48 ++ d

/-- `stats_format` into a buffer of `size` bytes. -/
def format (s : ServerStats) (now : Int) (size : Nat) : CStr :=
  let uptime := now - s.serverStartTime
  strlcpy size
    (text "╔════════════════════════════════════════╗\n" ++
      text "║        Server Statistics               ║\n" ++
      text "╠════════════════════════════════════════╣\n" ++
      text "║ Uptime:          " ++ twoDigits (uptime.tdiv 3600) ++ text ":" ++
      twoDigits ((uptime.tmod 3600).tdiv 60) ++ text ":" ++ twoDigits (uptime.tmod 60) ++
      text "             ║\n" ++
      text "║ Connections:     " ++ decimal s.activeConnections.toNat ++ text " active / " ++
      decimal s.totalConnections.toNat ++ text " total   \n" ++
      text "║ Requests:        " ++ decimal s.totalRequests.toNat ++ text " total / " ++
      decimal s.failedRequests.toNat ++ text " failed  \n" ++
      text "║ Bookings:        " ++ decimal s.totalBookings.toNat ++ text " confirmed / " ++
      decimal s.cancelledBookings.toNat ++ text " cancelled\n" ++
      text "║ Events:          " ++ decimal s.activeEvents.toNat ++ text " active / " ++
      decimal s.totalEvents.toNat ++ text " total   \n" ++
      text "║ Buffer Pool:     " ++ decimal s.bufferPoolHits.toNat ++ text " hits / " ++
      decimal s.bufferPoolMisses.toNat ++ text " misses    \n" ++
      text "║ Locks:           " ++ decimal s.locksAcquired.toNat ++ text " acquired / " ++
      decimal s.lockContentions.toNat ++ text " contentions\n" ++
      text "╚════════════════════════════════════════╝\n")

end ServerStats

end Ticketing
