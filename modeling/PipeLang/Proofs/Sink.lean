import PipeLang.Sink

/-!
# What sinks take

Sinks are in step when they have the same room and have taken the same bytes for a while. A
sink that cannot fail has room for everything, and it can be flushed.
-/

namespace PipeLang

/-- No bytes change nothing, even if the sink is full. -/
theorem Sink.write_empty (s : Sink) : s.write .empty = s := by
  obtain ⟨written, room, flushes⟩ := s
  cases room with
  | none => simp [Sink.write]
  | some room =>
    have hempty : ByteArray.empty.extract 0 room = .empty := by
      rw [← ByteArray.size_eq_zero_iff]
      simp
    simp [Sink.write, hempty]

/-- The sink takes everything, and it can be flushed. -/
structure Sink.Unfailing (s : Sink) : Prop where
  room_eq : s.room = none
  flushes_eq : s.flushes = true

/-- Writing does not use up room where there is no limit. -/
theorem Sink.Unfailing.write {s : Sink} (h : s.Unfailing) (bytes : ByteArray) :
    (s.write bytes).Unfailing := by
  obtain ⟨hroom, hflushes⟩ := h
  unfold Sink.write
  rw [hroom]
  exact ⟨rfl, hflushes⟩

/-- What the sink holds then. -/
theorem Sink.Unfailing.written_write {s : Sink} (h : s.Unfailing) (bytes : ByteArray) :
    (s.write bytes).written = s.written ++ bytes := by
  unfold Sink.write
  rw [h.room_eq]

/-- The bytes that a sink has taken since it was `s`. -/
def Sink.since (s t : Sink) : ByteArray := t.written.extract s.written.size t.written.size

/-- What has been written since is what has been added at the end. -/
theorem Sink.since_eq {s t : Sink} {bytes : ByteArray} (h : t.written = s.written ++ bytes) :
    s.since t = bytes := by
  rw [since, h, ByteArray.size_append, ByteArray.extract_append_eq_right rfl rfl]

/-! ## Sinks in step -/

/-- Sinks with the same room that have taken the same bytes since they were `o` and `o'`. -/
structure Sink.InStep (o o' s s' : Sink) : Prop where
  room_eq : s'.room = s.room
  written : ∃ bytes, s.written = o.written ++ bytes ∧ s'.written = o'.written ++ bytes
  left_flushes : s.flushes = o.flushes
  right_flushes : s'.flushes = o'.flushes

namespace Sink.InStep

variable {o o' s s' : Sink}

theorem refl (hroom : s'.room = s.room) : InStep s s' s s' :=
  ⟨hroom, ⟨.empty, by simp, by simp⟩, rfl, rfl⟩

/-- Sinks in step have room for the same bytes. -/
theorem fits_eq (h : InStep o o' s s') (bytes : ByteArray) : s'.fits bytes = s.fits bytes := by
  rw [fits, fits, h.room_eq]

/-- A flush succeeds for both or fails for both. -/
theorem flush_eq (h : InStep o o' s s') (hflushes : o'.flushes = o.flushes) :
    s'.flush = s.flush := by
  rw [flush, flush, h.left_flushes, h.right_flushes, hflushes]

/-- They stay in step, also when not all of the bytes fit. -/
theorem write (h : InStep o o' s s') (bytes : ByteArray) :
    InStep o o' (s.write bytes) (s'.write bytes) := by
  obtain ⟨hroom, ⟨before, hs, hs'⟩, hleft, hright⟩ := h
  unfold Sink.write
  rw [hroom]
  split
  · refine ⟨rfl, ⟨before ++ bytes, ?_, ?_⟩, hleft, hright⟩
    · rw [hs, ByteArray.append_assoc]
    · rw [hs', ByteArray.append_assoc]
  · next room _ =>
    refine ⟨rfl, ⟨before ++ bytes.extract 0 room, ?_, ?_⟩, hleft, hright⟩
    · rw [hs, ByteArray.append_assoc]
    · rw [hs', ByteArray.append_assoc]

end Sink.InStep

end PipeLang
