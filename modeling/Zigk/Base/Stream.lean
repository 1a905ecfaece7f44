/-
  Subject:   NUMBERED STREAMS: a list whose element `o` is sent under the serial number
             `place base o`.

  * `At base stream n data` -- `data` is what the stream holds from number `n` on;
  * `Window base stream una held` -- `held` is the rest of the stream from number `una` on: what a
    sender keeps until it is acknowledged;
  * `Window.piece` -- **any piece of the window, numbered by its offset from `una`, stands where
    its number says**; `Window.append`, `Window.advance` -- a window grows at its end and shrinks
    at its front;
  * `Holds stream o data` -- the same with the place known; `Holds.extends_received` -- a receiver
    that takes such data in order holds a beginning of the stream.

  Elements, word size and base number are arbitrary.
-/
import Zigk.Base.Serial

namespace Stream

open List

open Serial (place dist)

variable {α : Type*} {w : Nat} {base : BitVec w}

/-! ## 1. Data at a number -/

/-- The data stands at number `n` of the stream. -/
def At (base : BitVec w) (stream : List α) (n : BitVec w) (data : List α) : Prop :=
  ∃ o, n = place base o ∧ o + data.length ≤ stream.length ∧ data = (stream.drop o).take data.length

/-- What stands in a stream stands there however the stream goes on. -/
theorem At.append {stream more data : List α} {n : BitVec w} (h : At base stream n data) :
    At base (stream ++ more) n data := by
  obtain ⟨o, hn, hlen, hd⟩ := h
  refine ⟨o, hn, by rw [length_append]; omega, ?_⟩
  rw [drop_append_of_le_length (by omega),
    take_append_of_le_length (by rw [length_drop]; omega)]
  exact hd

/-! ## 2. Windows -/

/-- `held` is the rest of the stream from number `una` on. -/
def Window (base : BitVec w) (stream : List α) (una : BitVec w) (held : List α) : Prop :=
  ∃ u, u ≤ stream.length ∧ una = place base u ∧ held = stream.drop u

theorem window_start (base : BitVec w) : Window base ([] : List α) base [] :=
  ⟨0, le_rfl, (Serial.place_zero base).symm, rfl⟩

namespace Window

variable {stream held : List α} {una : BitVec w}

/-- **Any piece of the window stands where its offset says.** -/
theorem piece (h : Window base stream una held) {off len : Nat} (hin : off + len ≤ held.length) :
    At base stream (place una off) ((held.drop off).take len) := by
  obtain ⟨u, hu, rfl, rfl⟩ := h
  rw [length_drop] at hin
  have hlen : (((stream.drop u).drop off).take len).length = len := by
    rw [length_take, length_drop, length_drop]
    omega
  refine ⟨u + off, Serial.place_place base u off, by rw [hlen]; omega, ?_⟩
  rw [hlen, drop_drop]

/-- The application writes. -/
theorem append (h : Window base stream una held) (more : List α) :
    Window base (stream ++ more) una (held ++ more) := by
  obtain ⟨u, hu, hn, hh⟩ := h
  refine ⟨u, by rw [length_append]; omega, hn, ?_⟩
  rw [hh, drop_append_of_le_length hu]

/-- The peer acknowledges `n` elements of the window. -/
theorem advance (h : Window base stream una held) {n : Nat} (hn : n ≤ held.length) :
    Window base stream (place una n) (held.drop n) := by
  obtain ⟨u, hu, rfl, rfl⟩ := h
  rw [length_drop] at hn
  exact ⟨u + n, by omega, Serial.place_place base u n, by rw [drop_drop]⟩

end Window

/-! ## 3. Receiving -/

/-- The data is what the stream holds from place `o` on. -/
def Holds (stream : List α) (o : Nat) (data : List α) : Prop := data <+: stream.drop o

instance [DecidableEq α] (stream data : List α) (o : Nat) : Decidable (Holds stream o data) :=
  inferInstanceAs (Decidable (data <+: stream.drop o))

namespace Holds

variable {stream data data' : List α} {o : Nat}

theorem nil (stream : List α) (o : Nat) : Holds stream o [] := nil_prefix

theorem of_beginning (h : Holds stream o data) (hp : data' <+: data) : Holds stream o data' :=
  hp.trans h

theorem append (h : Holds stream o data) (h' : Holds stream (o + data.length) data') :
    Holds stream o (data ++ data') := by
  obtain ⟨t, ht⟩ := h
  have e : stream.drop (o + data.length) = t := by rw [← drop_drop, ← ht, List.drop_left]
  rw [Holds, e] at h'
  rw [Holds, ← ht]
  exact (prefix_append_right_inj data).mpr h'

/-- What is received in order goes on where the stream was left. -/
theorem extends_received {received : List α} (hr : received <+: stream)
    (h : Holds stream received.length data) : received ++ data <+: stream := by
  obtain ⟨t, rfl⟩ := hr
  rw [Holds, List.drop_left] at h
  exact (prefix_append_right_inj received).mpr h

end Holds

end Stream
