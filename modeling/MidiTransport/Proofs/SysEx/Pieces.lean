import MidiTransport.Message.Event
import MidiTransport.SysEx.Assembly

/-!
# Cutting a system exclusive message into pieces

A receiver announces the bytes of a message in pieces of `Assembly.capacity` bytes. Only
a byte behind a full piece shows that the piece is not the last one, so the last piece
has at least one byte and may be full too.
-/

namespace MidiTransport.SysEx

/-- The bytes at the end of a message that have not been announced in full pieces. -/
structure Remainder where
  data : List UInt8
  /-- No piece stands in front of them. -/
  first : Bool
  deriving DecidableEq, Repr

/-- Cut bytes into full pieces and a remainder of at most `Assembly.capacity` bytes. -/
def cut (first : Bool) (bytes : List UInt8) : List SysExPiece × Remainder :=
  if _short : bytes.length ≤ Assembly.capacity then ([], ⟨bytes, first⟩)
  else
    let (more, remainder) := cut false (bytes.drop Assembly.capacity)
    (⟨bytes.take Assembly.capacity, .first, first, false⟩ :: more, remainder)
termination_by bytes.length
decreasing_by
  simp only [Assembly.capacity, List.length_drop] at _short ⊢
  omega

/-- The full pieces of a message that is not over. It goes on behind each of them. -/
def openPieces (first : Bool) (bytes : List UInt8) : List Event :=
  (cut first bytes).1.map .sysExChunk

/-- All pieces of a message that is over. It ends with the last one. -/
def allPieces (first : Bool) (bytes : List UInt8) : List Event :=
  openPieces first bytes ++
    [.sysExMessage ⟨(cut first bytes).2.data, .first, (cut first bytes).2.first, true⟩]

variable {first : Bool} {bytes : List UInt8}

/-- Bytes that fit in one piece are not cut. -/
theorem cut_of_short (short : bytes.length ≤ Assembly.capacity) :
    cut first bytes = ([], ⟨bytes, first⟩) := by
  rw [cut, dif_pos short]

theorem cut_single (byte : UInt8) : cut first [byte] = ([], ⟨[byte], first⟩) :=
  cut_of_short (by simp [Assembly.capacity])

/-- Of more bytes than fit in one piece a full piece is cut off. -/
theorem cut_of_long (long : ¬ bytes.length ≤ Assembly.capacity) :
    cut first bytes =
      (⟨bytes.take Assembly.capacity, .first, first, false⟩ ::
          (cut false (bytes.drop Assembly.capacity)).1,
        (cut false (bytes.drop Assembly.capacity)).2) := by
  rw [cut, dif_neg long]

/-- Behind a full piece a further byte starts the next one. -/
theorem cut_full_append {full more : List UInt8} (length : full.length = Assembly.capacity)
    (nonempty : more ≠ []) :
    cut first (full ++ more) =
      (⟨full, .first, first, false⟩ :: (cut false more).1, (cut false more).2) := by
  have long : ¬ (full ++ more).length ≤ Assembly.capacity := by
    have positive := List.length_pos_iff.mpr nonempty
    rw [List.length_append]
    omega
  rw [cut_of_long long, ← length, List.take_left, List.drop_left]

/-- The full pieces in front of a remainder do not depend on what follows. -/
theorem cut_append (first : Bool) (front back : List UInt8) :
    cut first (front ++ back) =
      ((cut first front).1 ++
          (cut (cut first front).2.first ((cut first front).2.data ++ back)).1,
        (cut (cut first front).2.first ((cut first front).2.data ++ back)).2) := by
  fun_induction cut first front with
  | case1 first front short => rfl
  | case2 first front long more remainder equation ih =>
    have longer : Assembly.capacity < (front ++ back).length := by
      rw [List.length_append]
      omega
    have within : Assembly.capacity ≤ front.length := by omega
    rw [equation] at ih
    rw [cut_of_long (Nat.not_le.mpr longer), List.take_append_of_le_length within,
      List.drop_append_of_le_length within, ih]
    rfl

/-- Behind each full piece its message goes on. -/
theorem last_of_mem_cut {piece : SysExPiece} (member : piece ∈ (cut first bytes).1) :
    piece.last = false := by
  fun_induction cut first bytes with
  | case1 first bytes short => cases member
  | case2 first bytes long more remainder equation ih =>
    rw [equation] at ih
    rcases List.mem_cons.mp member with rfl | later
    · rfl
    · exact ih later

/-- No byte is lost, and none is moved. -/
theorem cut_data (first : Bool) (bytes : List UInt8) :
    (cut first bytes).1.flatMap (·.data) ++ (cut first bytes).2.data = bytes := by
  fun_induction cut first bytes with
  | case1 first bytes short => rfl
  | case2 first bytes long more remainder equation ih =>
    rw [equation] at ih
    simp only [List.flatMap_cons, List.append_assoc]
    rw [ih, List.take_append_drop]

/-- Every full piece has the greatest length, and the remainder of a message is never empty. -/
theorem cut_lengths (first : Bool) (nonempty : bytes ≠ []) :
    (∀ piece ∈ (cut first bytes).1, piece.length = Assembly.capacity) ∧
      0 < (cut first bytes).2.data.length ∧
      (cut first bytes).2.data.length ≤ Assembly.capacity := by
  fun_induction cut first bytes with
  | case1 first bytes short => exact ⟨by simp, List.length_pos_iff.mpr nonempty, short⟩
  | case2 first bytes long more remainder equation ih =>
    have behind : bytes.drop Assembly.capacity ≠ [] := by
      simpa [List.drop_eq_nil_iff] using long
    rw [equation] at ih
    obtain ⟨full, bounds⟩ := ih behind
    refine ⟨?_, bounds⟩
    intro piece member
    rcases List.mem_cons.mp member with rfl | later
    · simp only [SysExPiece.length, List.length_take]
      omega
    · exact full piece later

/-- A piece behind which its message goes on is full, and the last one has at least one byte. -/
def Sized : Event → Prop
  | .sysExChunk piece => piece.length = Assembly.capacity ∧ piece.last = false
  | .sysExMessage piece =>
    1 ≤ piece.length ∧ piece.length ≤ Assembly.capacity ∧ piece.last = true
  | _ => True

/-- The pieces of a message under way are full. -/
theorem sized_openPieces (first : Bool) (nonempty : bytes ≠ []) :
    ∀ event ∈ openPieces first bytes, Sized event := by
  intro event member
  obtain ⟨piece, inside, rfl⟩ := List.mem_map.mp member
  exact ⟨(cut_lengths first nonempty).1 piece inside, last_of_mem_cut inside⟩

/-- The pieces of a whole message are full, up to the last one. -/
theorem sized_allPieces (first : Bool) (nonempty : bytes ≠ []) :
    ∀ event ∈ allPieces first bytes, Sized event := by
  obtain ⟨-, some, bounded⟩ := cut_lengths first nonempty
  refine List.forall_mem_append.mpr ⟨sized_openPieces first nonempty, ?_⟩
  exact List.forall_mem_singleton.mpr ⟨some, bounded, rfl⟩

end MidiTransport.SysEx
