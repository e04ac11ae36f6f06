import RedisDb.Lib.Ring
import RedisDb.Server.Server

/-!
# The replication backlog

`feedReplicationBacklog` writes a stream of bytes into a circular buffer and keeps five counters on
it. After any sequence of calls the counters describe the stream, and the buffer holds the end of it
(`Server.backlog_ring`).

The invariant of one byte is `ReplBacklog.Follows`: the next byte goes to the cell that its position in
the stream has modulo the size.
-/

namespace RedisDb

variable {S : Type}

namespace ReplBacklog

/-! ### One byte -/

/-- The backlog, once allocated, has been fed the stream. -/
structure Follows (b : ReplBacklog) (stream : Bytes) : Prop where
  size_pos : 0 < b.size
  buffer : b.buffer.length = b.size
  cells : Ring.Follows b.buffer stream
  idx : b.idx = stream.length % b.size
  histLen : b.histLen = min stream.length b.size
  off : b.off = stream.length - b.histLen

variable {b : ReplBacklog} {stream : Bytes}

/-- **One turn of the loop.** -/
theorem Follows.feedByte (h : b.Follows stream) (c : UInt8) : (b.feedByte c).Follows (stream ++ [c]) := by
  have hpos : 0 < b.buffer.length := h.buffer.symm ▸ h.size_pos
  have hhist := h.histLen
  have hoff := h.off
  have hlength : (stream ++ [c]).length = stream.length + 1 := by
    rw [List.length_append, List.length_singleton]
  have hsize : (b.feedByte c).size = b.size := rfl
  refine ⟨h.size_pos, (List.length_set ..).trans h.buffer, ?_, ?_, ?_, ?_⟩
  · show Ring.Follows (b.buffer.set b.idx c) _
    rw [h.idx, ← h.buffer]
    exact h.cells.write hpos c
  · show (b.idx + 1) % b.size = _
    rw [h.idx, hlength, hsize, Nat.mod_add_mod]
  · -- the history grows until it has the size of the buffer
    show (if b.histLen < b.size then b.histLen + 1 else b.histLen) = _
    rw [hlength, hsize]
    split <;> omega
  · show (if b.histLen < b.size then b.off else b.off + 1)
      = (stream ++ [c]).length - (if b.histLen < b.size then b.histLen + 1 else b.histLen)
    rw [hlength]
    split <;> omega

/-- The loop of `feedReplicationBacklog`. By induction on the bytes. -/
theorem Follows.foldl_feedByte (data : Bytes) : ∀ {b : ReplBacklog} {stream : Bytes},
    b.Follows stream → (data.foldl ReplBacklog.feedByte b).Follows (stream ++ data) := by
  induction data with
  | nil =>
    intro b stream h
    rwa [List.append_nil]
  | cons c data ih =>
    intro b stream h
    have hrest := ih (h.feedByte c)
    rwa [List.append_assoc, List.singleton_append] at hrest

theorem follows_allocate {size : ℕ} (hsize : 0 < size) :
    ({ size := size } : ReplBacklog).allocate.Follows [] where
  size_pos := hsize
  buffer := List.length_replicate
  cells := Ring.follows_nil _
  idx := (Nat.zero_mod size).symm
  histLen := (min_eq_left (Int.natCast_nonneg size)).symm
  off := rfl

/-- A backlog that has been allocated stays as it is. -/
theorem Follows.allocate (h : b.Follows stream) : b.allocate = b := by
  refine if_neg fun hempty => ?_
  have hlength := h.buffer
  rw [hempty, List.length_nil] at hlength
  exact absurd hlength.symm h.size_pos.ne'

end ReplBacklog

namespace Server

/-! ### Calls of `feedReplicationBacklog` -/

/-- What the backlog of the server and its counters say about a stream of bytes. -/
structure HoldsStream (s : Server S) (size : ℕ) (stream : Bytes) : Prop where
  offset : s.masterReplOffset = stream.length
  histLen : s.backlog.histLen = min stream.length size
  off : s.backlog.off = stream.length - s.backlog.histLen
  idx : s.backlog.idx < size
  /-- The bytes before the next cell, as many as the history has. -/
  content : Ring.readBefore s.backlog.buffer s.backlog.idx s.backlog.histLen.toNat
    = stream.drop (stream.length - s.backlog.histLen.toNat)

/-- The backlog has been fed the stream, or there has been no call yet. -/
structure FedStream (s : Server S) (size : ℕ) (stream : Bytes) : Prop where
  offset : s.masterReplOffset = stream.length
  capacity : s.backlog.size = size
  backlog : s.backlog.allocate.Follows stream
  fresh : s.backlog.buffer = [] → s.backlog = { size := size } ∧ stream = []

variable {s : Server S} {size : ℕ} {stream : Bytes}

/-- **One call.** -/
theorem FedStream.feed (h : s.FedStream size stream) (data : Bytes) :
    (s.feedReplicationBacklog data).FedStream size (stream ++ data) := by
  have hfed := ReplBacklog.Follows.foldl_feedByte data h.backlog
  have hsize : (s.backlog.feed data).buffer.length ≠ 0 := by
    rw [ReplBacklog.feed, hfed.buffer]
    exact hfed.size_pos.ne'
  refine ⟨?_, ?_, ?_, fun hempty => ?_⟩
  · show s.masterReplOffset + data.length = _
    rw [h.offset, List.length_append, Nat.cast_add]
  · -- no turn of the loop changes the size
    have hkeep (data : Bytes) : ∀ b : ReplBacklog, (data.foldl ReplBacklog.feedByte b).size = b.size := by
      induction data with
      | nil => exact fun _ => rfl
      | cons c data ih => exact fun b => ih (b.feedByte c)
    show (data.foldl ReplBacklog.feedByte s.backlog.allocate).size = size
    rw [hkeep, ReplBacklog.allocate, ← h.capacity]
    split <;> rfl
  · show (s.backlog.feed data).allocate.Follows _
    rw [ReplBacklog.feed, hfed.allocate]
    exact hfed
  · exact absurd (List.length_eq_zero_iff.mpr hempty) hsize

theorem FedStream.foldl_feed (feeds : List Bytes) : ∀ {s : Server S} {stream : Bytes},
    s.FedStream size stream →
      (feeds.foldl (fun (s : Server S) data => s.feedReplicationBacklog data) s).FedStream size
        (stream ++ feeds.flatten) := by
  induction feeds with
  | nil =>
    intro s stream h
    rwa [List.flatten_nil, List.append_nil]
  | cons data feeds ih =>
    intro s stream h
    have hrest := ih (h.feed data)
    rwa [List.append_assoc, ← List.flatten_cons] at hrest

theorem FedStream.holds (h : s.FedStream size stream) (hsize : 0 < size) : s.HoldsStream size stream := by
  by_cases hempty : s.backlog.buffer = []
  · obtain ⟨hb, rfl⟩ := h.fresh hempty
    refine ⟨h.offset, ?_, ?_, ?_, ?_⟩ <;> rw [hb]
    · exact (min_eq_left (Int.natCast_nonneg size)).symm
    · rfl
    · exact hsize
    · rfl
  · have hb : s.backlog.Follows stream := by
      have hallocated := h.backlog
      rwa [ReplBacklog.allocate, if_neg hempty] at hallocated
    -- the backlog has been allocated, and its counters are those of the stream
    have hhist := hb.histLen
    rw [h.capacity] at hhist
    refine ⟨h.offset, hhist, hb.off, ?_, ?_⟩
    · rw [hb.idx, h.capacity]
      exact Nat.mod_lt _ hsize
    · have hlength := hb.buffer.trans h.capacity
      rw [hb.idx, ← hb.buffer]
      exact hb.cells.readBefore (by omega) (by omega)

/-- **The replication backlog**, after any calls of `feedReplicationBacklog` on a server whose backlog is new, for
every size: the counters describe the stream that has been fed, and the buffer holds the end of it. One feed moves the
write position round the ring and lays the bytes behind it, by induction on them; the run is a fold of such feeds. -/
theorem backlog_ring (hsize : 0 < size) (s : Server S) (feeds : List Bytes) :
    (feeds.foldl (fun (s : Server S) data => s.feedReplicationBacklog data)
      { s with backlog := { size := size }, masterReplOffset := 0 }).HoldsStream size
        feeds.flatten := by
  have hstart : ({ s with backlog := { size := size }, masterReplOffset := 0 } : Server S).FedStream
      size [] := ⟨rfl, rfl, ReplBacklog.follows_allocate hsize, fun _ => ⟨rfl, rfl⟩⟩
  exact (FedStream.foldl_feed feeds hstart).holds hsize

/-- A backlog of three bytes that wraps around twice. -/
theorem backlog_ring_wraps :
    ([str "ab", str "cdefg"].foldl (fun (s : Server Sample.Score) data => s.feedReplicationBacklog data)
      { databases := [], backlog := { size := 3 }, masterReplOffset := 0 }).HoldsStream 3
        (str "abcdefg") :=
  backlog_ring (by decide) { databases := [] } [str "ab", str "cdefg"]

end Server

end RedisDb
