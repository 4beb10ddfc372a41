/-
The readers and writers the codecs are templates over (`iotmp_adapters.hpp`).

- `MemoryReader`: the unread part of the buffer and the count of bytes read. A read that does not fit fails and leaves
  the reader as it was.
- `Writer`, `Put`: a writer takes a block of bytes and says whether all of it went in; a `Put` is a piece of an encoder,
  `andThen` its `&&`.
- `LawfulWriter`: writing two blocks one after the other is writing their concatenation. Under it a `Put` that always
  writes the same bytes is one write (`Writes`), and `Writes` composes along `andThen`.
- `StringWriter`, `VectorWriter`, `NullWriter`, `MemoryWriter`: the four writers, all lawful. Only the last can fail: it
  fills its buffer, and what does not fit is dropped.
-/
import Mathlib.Tactic
import Iotmp.Core.Json

namespace Iotmp

/-! ## memory_reader -/

structure MemoryReader where
  /-- the bytes from `buffer_ + read_` to `buffer_ + size_` -/
  rest : Bytes
  bytesRead : ℕ

namespace MemoryReader

def ofBuffer (buffer : Bytes) : MemoryReader := ⟨buffer, 0⟩

def read (r : MemoryReader) (size : ℕ) : Option (Bytes × MemoryReader) :=
  if size ≤ r.rest.length then some (r.rest.take size, ⟨r.rest.drop size, r.bytesRead + size⟩) else none

/-- `read(target)`, one byte -/
def readByte (r : MemoryReader) : Option (UInt8 × MemoryReader) :=
  match r.rest with
  | [] => none
  | b :: bs => some (b, ⟨bs, r.bytesRead + 1⟩)

@[simp] theorem readByte_nil (n : ℕ) : readByte ⟨[], n⟩ = none := rfl

@[simp] theorem readByte_cons (b : UInt8) (bs : Bytes) (n : ℕ) : readByte ⟨b :: bs, n⟩ = some (b, ⟨bs, n + 1⟩) := rfl

theorem read_append (s tl : Bytes) (n : ℕ) : read ⟨s ++ tl, n⟩ s.length = some (s, ⟨tl, n + s.length⟩) := by
  simp [read]

end MemoryReader

/-! ## Writers -/

class Writer (W : Type) where
  write : W → Bytes → Bool × W
  bytesWritten : W → ℕ

/-- a piece of an encoder: what it returns and the writer after it -/
abbrev Put (W : Type) := W → Bool × W

namespace Put

variable {W : Type}

/-- `p && q` -/
def andThen (p q : Put W) : Put W := fun w =>
  match p w with
  | (false, w) => (false, w)
  | (true, w) => q w

def done : Put W := fun w => (true, w)

def fail : Put W := fun w => (false, w)

end Put

def put {W : Type} [Writer W] (bs : Bytes) : Put W := fun w => Writer.write w bs

/-- a block may be cut anywhere: its parts are written one after the other until one does not fit -/
class LawfulWriter (W : Type) [Writer W] : Prop where
  write_nil (w : W) : Writer.write w [] = (true, w)
  write_append (w : W) (a b : Bytes) : Writer.write w (a ++ b) = (put a).andThen (put b) w
  write_snd (w : W) (a b : Bytes) : (Writer.write (Writer.write w a).2 b).2 = (Writer.write w (a ++ b)).2

/-- `p` writes `bs`, whatever the writer -/
def Writes {W : Type} [Writer W] (p : Put W) (bs : Bytes) : Prop := ∀ w, p w = Writer.write w bs

section

variable {W : Type} [Writer W]

theorem writes_put (bs : Bytes) : Writes (put (W := W) bs) bs := fun _ => rfl

variable [LawfulWriter W]

theorem writes_done : Writes (Put.done (W := W)) [] := fun w => (LawfulWriter.write_nil w).symm

theorem Writes.andThen {p q : Put W} {a b : Bytes} (hp : Writes p a) (hq : Writes q b) :
    Writes (p.andThen q) (a ++ b) := by
  intro w
  rw [LawfulWriter.write_append]
  simp only [Put.andThen, hp w, put]
  split
  · rfl
  · exact hq _

end

/-! ## Writing without looking at the result -/

section

variable {W : Type} [Writer W]

def emit (bs : Bytes) (w : W) : W := (Writer.write w bs).2

/-- `f` leaves the writer as one write of `bs` does -/
def Emits (f : W → W) (bs : Bytes) : Prop := ∀ w, f w = emit bs w

theorem emits_emit (bs : Bytes) : Emits (emit (W := W) bs) bs := fun _ => rfl

theorem Writes.emits {p : Put W} {bs : Bytes} (h : Writes p bs) : Emits (fun w => (p w).2) bs :=
  fun w => congrArg Prod.snd (h w)

variable [LawfulWriter W]

theorem emits_id : Emits (id : W → W) [] := fun w => (congrArg Prod.snd (LawfulWriter.write_nil w)).symm

theorem Emits.comp {f g : W → W} {a b : Bytes} (hf : Emits f a) (hg : Emits g b) :
    Emits (fun w => g (f w)) (a ++ b) := fun w =>
  calc g (f w) = emit b (emit a w) := by rw [hg, hf]
    _ = emit (a ++ b) w := LawfulWriter.write_snd w a b

end

/-- `string_writer`: appends, never fails -/
structure StringWriter where
  string : Bytes
  written : ℕ := 0

instance : Writer StringWriter where
  write w bs := (true, ⟨w.string ++ bs, w.written + bs.length⟩)
  bytesWritten := StringWriter.written

instance : LawfulWriter StringWriter where
  write_nil w := by simp [Writer.write]
  write_append w a b := by simp [Writer.write, put, Put.andThen, Nat.add_assoc]
  write_snd w a b := by simp [Writer.write, Nat.add_assoc]

/-- `null_writer`: only counts -/
structure NullWriter where
  written : ℕ := 0

instance : Writer NullWriter where
  write w bs := (true, ⟨w.written + bs.length⟩)
  bytesWritten := NullWriter.written

instance : LawfulWriter NullWriter where
  write_nil w := by simp [Writer.write]
  write_append w a b := by simp [Writer.write, put, Put.andThen, Nat.add_assoc]
  write_snd w a b := by simp [Writer.write, Nat.add_assoc]

/-- `vector_writer`: appends to a vector that grows -/
structure VectorWriter where
  buffer : Bytes
  written : ℕ := 0

instance instWriterVectorWriter : Writer VectorWriter where
  write w bs := (true, ⟨w.buffer ++ bs, w.written + bs.length⟩)
  bytesWritten := VectorWriter.written

instance instLawfulWriterVectorWriter : LawfulWriter VectorWriter where
  write_nil w := by simp [Writer.write]
  write_append w a b := by simp [Writer.write, put, Put.andThen, Nat.add_assoc]
  write_snd w a b := by simp [Writer.write, Nat.add_assoc]

/-! ## memory_writer -/

/-- `memory_writer`: `buffer` is the caller's, from `buffer_` to `end_`, and `current` is `current_ - buffer_` -/
structure MemoryWriter where
  buffer : Bytes
  current : ℕ
  current_le : current ≤ buffer.length

namespace MemoryWriter

def ofBuffer (buffer : Bytes) : MemoryWriter := ⟨buffer, 0, Nat.zero_le _⟩

theorem advance_le (w : MemoryWriter) (byte : UInt8) (h : w.current < w.buffer.length) :
    w.current + 1 ≤ (w.buffer.set w.current byte).length := by
  rw [List.length_set]
  exact h

/-- `*current_++ = byte` -/
def advance (w : MemoryWriter) (byte : UInt8) (h : w.current < w.buffer.length) : MemoryWriter :=
  ⟨w.buffer.set w.current byte, w.current + 1, w.advance_le byte h⟩

/-- the loop of `write`: it ends with the data or at the end of the buffer, and returns `size == 0` -/
def write : Bytes → MemoryWriter → Bool × MemoryWriter
  | [], w => (true, w)
  | byte :: data, w => if h : w.current < w.buffer.length then write data (w.advance byte h) else (false, w)

@[simp] theorem write_nil (w : MemoryWriter) : write [] w = (true, w) := rfl

theorem write_cons_of_lt {w : MemoryWriter} (byte : UInt8) (data : Bytes) (h : w.current < w.buffer.length) :
    write (byte :: data) w = write data (w.advance byte h) := dif_pos h

theorem write_cons_of_full {w : MemoryWriter} (byte : UInt8) (data : Bytes) (h : ¬ w.current < w.buffer.length) :
    write (byte :: data) w = (false, w) := dif_neg h

/-- a full buffer stays as it is -/
theorem write_full {w : MemoryWriter} (data : Bytes) (h : ¬ w.current < w.buffer.length) : (write data w).2 = w := by
  cases data with
  | nil => rfl
  | cons byte data => rw [write_cons_of_full byte data h]

theorem write_append (a b : Bytes) (w : MemoryWriter) : write (a ++ b) w = Put.andThen (write a) (write b) w := by
  induction a generalizing w with
  | nil => rfl
  | cons byte a ih =>
    by_cases h : w.current < w.buffer.length
    · simp only [List.cons_append, Put.andThen, write_cons_of_lt _ _ h]
      exact ih _
    · simp only [List.cons_append, Put.andThen, write_cons_of_full _ _ h]

theorem write_snd (a b : Bytes) (w : MemoryWriter) : (write b (write a w).2).2 = (write (a ++ b) w).2 := by
  induction a generalizing w with
  | nil => rfl
  | cons byte a ih =>
    by_cases h : w.current < w.buffer.length
    · simp only [List.cons_append, write_cons_of_lt _ _ h]
      exact ih _
    · simp only [List.cons_append, write_cons_of_full _ _ h]
      exact write_full b h

end MemoryWriter

instance instWriterMemoryWriter : Writer MemoryWriter where
  write w bs := w.write bs
  bytesWritten := MemoryWriter.current

instance instLawfulWriterMemoryWriter : LawfulWriter MemoryWriter where
  write_nil _ := rfl
  write_append w a b := MemoryWriter.write_append a b w
  write_snd w a b := MemoryWriter.write_snd a b w

end Iotmp
